/-
The program, `src/tangor.cpp`: from the submission of the first task to the result.

`main` submits the tasks of the builder while the workers are already running the
first ones, waits for all of them, acquires every output handle once so that its
content is in main memory, and writes the output vector to a file.

What StarPU does meanwhile is `TaskGraph.Runtime`.  The gates of TFHEpp under the key
in use are the parameter `gate`: any function from input ciphertexts to an output.
-/
import Tangor.StarpuBuildGraph
import Tangor.TaskGraph.Runtime

namespace Tangor

open YosysJSONparser TaskGraph

variable {V N : Type*}

/-- `HomGateWrap`: the first buffer is overwritten with the gate of the others. -/
def TaskInsert.toTask (gate : Codelet → List V → V) (task : TaskInsert) : Task Slot V where
  target := task.target
  update := false
  sources := task.sources
  fn := gate task.codelet

/-- `cipherout_handle`. -/
def cipheroutHandle (bc : ParsedBC) : List Slot :=
  (List.range bc.outputVector.length).map Slot.cipherout

/-- How far `main` is. -/
inductive Phase (V : Type*) where
  /-- In `starpu_build_graph`, with these tasks still to submit. -/
  | submitting (rest : List TaskInsert)
  /-- In `starpu_task_wait_for_all`. -/
  | waiting
  /-- In `starpu_sync_outputs_to_host`, with these handles still to acquire. -/
  | syncing (rest : List Slot)
  /-- `result.data` is written. -/
  | written (result : List V)

structure MainState (N V : Type*) where
  phase : Phase V
  runtime : Runtime Slot N V

/-- The slots are registered and hold `σ`, and nothing is submitted. -/
def MainState.start (main : N) (σ : Slot → V) (tasks : List TaskInsert) : MainState N V where
  phase := .submitting tasks
  runtime := Runtime.fresh main σ

section Steps

variable [DecidableEq N] (gate : Codelet → List V → V) (main : N) (outs : List Slot)

/-- The steps of `main` and of the workers, in any order. -/
inductive MainStep : MainState N V → MainState N V → Prop
  | submit (task : TaskInsert) (rest : List TaskInsert) (r : Runtime Slot N V) :
      MainStep ⟨.submitting (task :: rest), r⟩ ⟨.submitting rest, r.submit (task.toTask gate)⟩
  | built (r : Runtime Slot N V) : MainStep ⟨.submitting [], r⟩ ⟨.waiting, r⟩
  | waited (r : Runtime Slot N V) (hdone : ∀ i < r.tasks.length, i ∈ r.finished) :
      MainStep ⟨.waiting, r⟩ ⟨.syncing outs, r⟩
  | acquire (slot : Slot) (rest : List Slot) (r : Runtime Slot N V)
      (hmain : main ∈ r.valid slot) : MainStep ⟨.syncing (slot :: rest), r⟩ ⟨.syncing rest, r⟩
  | write (r : Runtime Slot N V) :
      MainStep ⟨.syncing [], r⟩ ⟨.written (outs.map fun slot => r.copies slot main), r⟩
  | work (phase : Phase V) (r r' : Runtime Slot N V) (h : r.Step r') :
      MainStep ⟨phase, r⟩ ⟨phase, r'⟩

end Steps

/-! ### The gate vector as a sequential program -/

/-- One gate: what the task inserted for it does. -/
def executeGate (useM12 : Bool) (bc : ParsedBC) (gate : Codelet → List V → V) (σ : Slot → V)
    (g : GateStruct) : Result (Slot → V) :=
  match submitGate useM12 bc g with
  | .ok (.inserted task) => .ok ((task.toTask gate).apply σ)
  | .ok (.printed _) | .ok .skipped => .ok σ
  | .error fault => .error fault

/-- The gate vector, one gate at a time. -/
def executeGates (useM12 : Bool) (bc : ParsedBC) (gate : Codelet → List V → V) (σ : Slot → V) :
    Result (Slot → V) :=
  bc.gateVector.foldlM (executeGate useM12 bc gate) σ

end Tangor
