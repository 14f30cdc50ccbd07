/-
The codelets on the workers, `src/wrappedcodelets.cpp` and `src/cufhepp_starpu.cu`.

StarPU gives every task to a worker of its choice.  A CPU worker runs the `cpu_funcs` of
the codelet, which call TFHEpp, or the FPGA kernel where the program was built with
`USE_HOGE` and the worker has the number 0.  A CUDA worker runs the `cuda_funcs`, which
call cuFHEpp; there are such workers only if the program was built with `USE_CUFHEPP`.

`Codelet.execute` is what a worker does to the memory the buffers point into.
`Codelet.run` is what remains of it for the task graph: what is left in the written buffer,
from the contents of the others.  `PlacedStep` is the program with workers of this kind.
-/
import Tangor.Program
import Tangor.WrappedCodelets

namespace Tangor

variable {Pointer : Type} {w n : Nat}

/-- The functions of cuFHEpp that the codelets call. -/
inductive Bootstrap where
  | NandBootstrap | NorBootstrap | XnorBootstrap | AndBootstrap | OrBootstrap | XorBootstrap
  | AndNYBootstrap | AndYNBootstrap | OrNYBootstrap | OrYNBootstrap
  | NotBootstrap | MuxBootstrap | NMuxBootstrap
deriving DecidableEq, Repr

/-- What the wrappers call, under the key in use. -/
structure Libraries (w n : Nat) where
  /-- `TFHEpp::HomGate`, with its offset in multiples of `μ`. -/
  homGate : Int × Int × Int → TLWE w n → TLWE w n → TLWE w n
  homNOT : TLWE w n → TLWE w n
  homMUX : TLWE w n → TLWE w n → TLWE w n → TLWE w n
  homNMUX : TLWE w n → TLWE w n → TLWE w n → TLWE w n
  /-- The kernel of the FPGA image. -/
  kernel : Kernel w n
  /-- cuFHEpp, on the operands in the order of the arguments. -/
  cufhe : Bootstrap → List (TLWE w n) → TLWE w n

/-- A worker of StarPU: its number, and whether it is one for CUDA. -/
structure Worker where
  id : Nat
  cuda : Bool
deriving DecidableEq, Repr

/-- The build options. -/
structure Build where
  useHoge : Bool
  useCufhepp : Bool
deriving DecidableEq, Repr

/-- `TANGOR_CODELET_WHERE`: the worker can run the codelets. -/
def Build.Offers (build : Build) (worker : Worker) : Prop :=
  worker.cuda = true → build.useCufhepp = true

/-! ### Wrappers -/

section Wrappers

variable [DecidableEq Pointer]

def HomNOTWrap (homNOT : TLWE w n → TLWE w n) (buffers : Nat → Pointer) (s : Hoge Pointer w n) :
    Hoge Pointer w n :=
  s.store (buffers 0) (homNOT (s.memory (buffers 1)))

/-- The wrappers of `cufhepp_starpu.cu`, for a function with `arity` operands. -/
def CufheppWrap (cufhe : List (TLWE w n) → TLWE w n) (arity : Nat) (buffers : Nat → Pointer)
    (s : Hoge Pointer w n) : Hoge Pointer w n :=
  s.store (buffers 0) (cufhe ((List.range arity).map fun i => s.memory (buffers (i + 1))))

namespace Codelet

/-- `nbuffers`, without the buffer that is written. -/
def arity : Codelet → Nat
  | .clHomNOT => 1
  | .clHomMUX | .clHomNMUX => 3
  | _ => 2

/-- `cuda_funcs`. -/
def cudaFunc : Codelet → Bootstrap
  | .clHomNAND => .NandBootstrap
  | .clHomNOR => .NorBootstrap
  | .clHomXNOR => .XnorBootstrap
  | .clHomAND => .AndBootstrap
  | .clHomOR => .OrBootstrap
  | .clHomXOR => .XorBootstrap
  | .clHomANDNY => .AndNYBootstrap
  | .clHomANDYN => .AndYNBootstrap
  | .clHomORNY => .OrNYBootstrap
  | .clHomORYN => .OrYNBootstrap
  | .clHomNOT => .NotBootstrap
  | .clHomMUX => .MuxBootstrap
  | .clHomNMUX => .NMuxBootstrap

/-- `cpu_funcs`, on the worker with the number `id`. -/
def cpuFunc (lib : Libraries w n) (build : Build) (id : Nat) (buffers : Nat → Pointer)
    (s : Hoge Pointer w n) (codelet : Codelet) : Hoge Pointer w n :=
  let gate (wrapped : WrappedGate) :=
    s.HomGateWrap build.useHoge lib.kernel lib.homGate wrapped id buffers
  match codelet with
  | .clHomNAND => gate .clHomNAND
  | .clHomNOR => gate .clHomNOR
  | .clHomXNOR => gate .clHomXNOR
  | .clHomAND => gate .clHomAND
  | .clHomOR => gate .clHomOR
  | .clHomXOR => gate .clHomXOR
  | .clHomANDNY => gate .clHomANDNY
  | .clHomANDYN => gate .clHomANDYN
  | .clHomORNY => gate .clHomORNY
  | .clHomORYN => gate .clHomORYN
  | .clHomNOT => HomNOTWrap lib.homNOT buffers s
  | .clHomMUX => s.HomMUXWrap build.useHoge lib.kernel lib.homMUX false id buffers
  | .clHomNMUX => s.HomMUXWrap build.useHoge lib.kernel lib.homNMUX true id buffers

/-- What the worker does. -/
def execute (lib : Libraries w n) (build : Build) (worker : Worker) (codelet : Codelet)
    (buffers : Nat → Pointer) (s : Hoge Pointer w n) : Hoge Pointer w n :=
  if worker.cuda then CufheppWrap (lib.cufhe codelet.cudaFunc) codelet.arity buffers s
  else codelet.cpuFunc lib build worker.id buffers s

end Codelet

end Wrappers

/-! ### Tasks -/

/-- A memory with the operands of a task behind the pointers 1, 2 and so on; the FPGA and the
host arrays hold nothing yet. -/
def Hoge.loaded (operands : List (TLWE w n)) : Hoge Nat w n where
  memory p := operands.getD (p - 1) 0
  buftlwea := 0
  buftlweb := 0
  bufres := 0
  bufferIna := 0
  bufferInb := 0
  bufferRes := 0
  scalea := 0
  scaleb := 0
  offset := 0

/-- What the worker leaves in the written buffer. -/
def Codelet.run (lib : Libraries w n) (build : Build) (worker : Worker) (codelet : Codelet)
    (operands : List (TLWE w n)) : TLWE w n :=
  (codelet.execute lib build worker id (Hoge.loaded operands)).memory 0

/-! ### Jobs -/

/-- A task that a worker has fetched: its codelet, and where its buffers are. -/
structure Job (Pointer : Type) where
  worker : Worker
  codelet : Codelet
  buffers : Nat → Pointer

section Jobs

variable [DecidableEq Pointer]

/-- The jobs one after another, with whatever the FPGA and the host arrays hold in between. -/
def executeAll (lib : Libraries w n) (build : Build) (jobs : List (Job Pointer))
    (s : Hoge Pointer w n) : Hoge Pointer w n :=
  jobs.foldl (fun s job => job.codelet.execute lib build job.worker job.buffers s) s

/-- What a job means: the written buffer gets a function of the others, and nothing else
happens. -/
def Job.apply (lib : Libraries w n) (build : Build) (memory : Pointer → TLWE w n)
    (job : Job Pointer) : Pointer → TLWE w n :=
  Function.update memory (job.buffers 0) (job.codelet.run lib build job.worker
    ((List.range job.codelet.arity).map fun i => memory (job.buffers (i + 1))))

end Jobs

/-- A step of the program in which a task that is submitted will run on any worker of those
there are. -/
def PlacedStep {V N : Type*} [DecidableEq N] (runOn : Worker → Codelet → List V → V)
    (workers : Worker → Prop) (main : N) (outs : List Slot) (s s' : MainState N V) : Prop :=
  ∃ worker, workers worker ∧ MainStep (runOn worker) main outs s s'

end Tangor
