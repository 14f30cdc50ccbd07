/-
The backend on any number of threads, with the tasks running in between.

A thread inside a call is at one of a few places, `Pc`, and what it does between two of
them is one step: the parts of `IyokanStarpuCodelets` that a lock protects are run to
completion, `waitForTask` looks at `finished` until it is set, and `synchronizeOutput`
asks StarPU for the output and is let in later.  StarPU is `TaskGraph.Runtime` over the
handles: what the backend calls is carried out on it by `serve`, and its workers step on
their own.  `Step` is the life of the backend until it is shut down; `LifeStep` adds
`shutdownIyokanStarpu`.

What TFHEpp computes is the parameter `tfhe`; ciphertexts are any type `V`.

The host keeps to the contract of `mark*HostWrite`: it writes an object while no
unfinished task touches it, and marks it before the object is used in another call.
StarPU moves a content to main memory for a task or an acquisition only, so not in between.

`scope`, `submitted`, `synchronized`, `captures`, `dirty`, `written` and `lastWrite` record
what has happened; of these only `dirty` is looked at, for the contract.
-/
import Tangor.IyokanStarpuCodelets
import Tangor.TaskGraph.Unannounced
import Mathlib.Logic.Relation

namespace Tangor.Iyokan

open Throwing TaskGraph

/-! ### What the tasks compute -/

/-- The functions of TFHEpp, on ciphertexts of any kind. -/
structure TFHE (Key V : Type) where
  /-- `HomGate`, with its offset in multiples of `μ`. -/
  homGate (caSign cbSign offset : Int) (evalKey : Key) (left right : V) : V
  /-- The negation of every coordinate. -/
  negate (input : V) : V
  homMUX (evalKey : Key) (select whenTrue whenFalse : V) : V
  cmuxFFT (select whenTrue whenFalse : V) : V
  homMUXwoSE (evalKey : Key) (select whenTrue whenFalse : V) : V

/-- The arguments of `TANGOR_BINARY_CODELET`: `caSign`, `cbSign` and `offset`. -/
def IyokanBinaryGate.parameters : IyokanBinaryGate → Int × Int × Int
  | .AND => (1, 1, -1)
  | .NAND => (-1, -1, 1)
  | .ANDNOT => (1, -1, -1)
  | .OR => (1, 1, 1)
  | .NOR => (-1, -1, -1)
  | .ORNOT => (1, -1, 1)
  | .XOR => (2, 2, 2)
  | .XNOR => (-2, -2, -2)

variable {Tid Key N V : Type}

/-- The binary gate on two ciphertexts. -/
def TFHE.binaryGate (tfhe : TFHE Key V) (gate : IyokanBinaryGate) (evalKey : Key)
    (left right : V) : V :=
  let (caSign, cbSign, offset) := gate.parameters
  tfhe.homGate caSign cbSign offset evalKey left right

/-- The codelets, on the buffers they read: an output that is only written is not among
them.  A bootstrapped one reads `*currentEvalKey`. -/
def IyokanCodelet.run [Inhabited V] (tfhe : TFHE Key V) (currentEvalKey : Option Key) :
    IyokanCodelet → List V → V
  | .binaryCodelet gate, [left, right] =>
      currentEvalKey.elim default fun evalKey => tfhe.binaryGate gate evalKey left right
  | .notCodelet, [input] => tfhe.negate input
  | .muxCodelet, [select, whenTrue, whenFalse] =>
      currentEvalKey.elim default fun evalKey => tfhe.homMUX evalKey select whenTrue whenFalse
  | .cmuxFFTCodelet, [select, whenTrue, whenFalse] => tfhe.cmuxFFT select whenTrue whenFalse
  | .cmuxFFTInPlaceTrueCodelet, [output, select, whenFalse] =>
      tfhe.cmuxFFT select output whenFalse
  | .cmuxFFTInPlaceFalseCodelet, [output, select, whenTrue] =>
      tfhe.cmuxFFT select whenTrue output
  | .muxWoSECodelet, [select, whenTrue, whenFalse] =>
      currentEvalKey.elim default fun evalKey =>
        tfhe.homMUXwoSE evalKey select whenTrue whenFalse
  | _, _ => default

/-- A task as it is inserted; the first buffer is the one that is written. -/
def insertedTask [Inhabited V] (tfhe : TFHE Key V) (currentEvalKey : Option Key)
    (codelet : IyokanCodelet) (mode : AccessMode) (target : Handle)
    (sources : List (AccessMode × Handle)) : Task Handle V where
  target := target
  update := mode = .RW
  sources := sources.map Prod.snd
  fn := codelet.run tfhe currentEvalKey

/-- What a library call does to StarPU: `memory` is what the objects hold when they are
registered. -/
def serve [Inhabited V] [DecidableEq N] (tfhe : TFHE Key V) (main : N) (memory : Place → V)
    (currentEvalKey : Option Key) (r : Runtime Handle N V) :
    LibraryCall Key → Runtime Handle N V
  | .vectorDataRegister handle data =>
      r.register main handle (memory (.persistentHandles, data))
  | .variableDataRegister handle value _ =>
      r.register main handle (memory (.persistentVariableHandles, value))
  | .taskInsert codelet ((mode, target) :: sources) status =>
      if status = 0 then r.submit (insertedTask tfhe currentEvalKey codelet mode target sources)
      else r
  | _ => r

/-! ### The calls, one at a time -/

namespace GateCall

/-- The object the call writes. -/
def output (call : GateCall Key) : Place := call.submission.output.place

/-- The objects the call opens. -/
def places (call : GateCall Key) : List Place := call.submission.accesses.map Access.place

/-- What the call computes from the contents of its operands. -/
def value (tfhe : TFHE Key V) (σ : Place → V) : GateCall Key → V
  | .binaryGate gate _ left right evalKey =>
      tfhe.binaryGate gate evalKey (σ (.persistentHandles, left)) (σ (.persistentHandles, right))
  | .not _ input => tfhe.negate (σ (.persistentHandles, input))
  | .mux _ select whenTrue whenFalse evalKey =>
      tfhe.homMUX evalKey (σ (.persistentHandles, select)) (σ (.persistentHandles, whenTrue))
        (σ (.persistentHandles, whenFalse))
  | .cmuxFFT _ select whenTrue whenFalse =>
      tfhe.cmuxFFT (σ (.persistentVariableHandles, select))
        (σ (.persistentVariableHandles, whenTrue)) (σ (.persistentVariableHandles, whenFalse))
  | .muxWoSE _ select whenTrue whenFalse evalKey =>
      tfhe.homMUXwoSE evalKey (σ (.persistentHandles, select)) (σ (.persistentHandles, whenTrue))
        (σ (.persistentHandles, whenFalse))

/-- The call executed to its end, on its own. -/
def apply (tfhe : TFHE Key V) (call : GateCall Key) (σ : Place → V) : Place → V :=
  Function.update σ call.output (call.value tfhe σ)

/-- The output is not an input as well, unless it is one of the data operands of a
`CMUXFFT`.  A `MUXwoSE` writes another kind of object than it reads. -/
def Unaliased : GateCall Key → Prop
  | .binaryGate _ output left right _ => output ≠ left ∧ output ≠ right
  | .not output input => output ≠ input
  | .mux output select whenTrue whenFalse _ =>
      output ≠ select ∧ output ≠ whenTrue ∧ output ≠ whenFalse
  | .cmuxFFT output select whenTrue whenFalse =>
      output ≠ select ∧ ¬ (output = whenTrue ∧ output = whenFalse)
  | .muxWoSE _ _ _ _ _ => True

/-- The calls share an object that one of them writes. -/
def Conflict (a b : GateCall Key) : Prop := a.output ∈ b.places ∨ b.output ∈ a.places

end GateCall

/-- All calls one at a time, in order. -/
def runCalls (tfhe : TFHE Key V) (calls : List (GateCall Key)) (σ : Place → V) : Place → V :=
  calls.foldl (fun τ call => call.apply tfhe τ) σ

/-! ### Threads -/

/-- Where a thread is. -/
inductive Pc (Key : Type) where
  | idle
  /-- In `ensureStarpuRuntime`, with the key to bind and the gate to submit after it. -/
  | ensuring (key : Option Key) (next : Option (GateCall Key))
  /-- In `ensureStarpu`, about to take `backendMutex`. -/
  | binding (key : Key) (next : Option (GateCall Key))
  /-- In a `submit` function, with the handles found so far. -/
  | submitting (call : GateCall Key) (handles : List Handle)
  /-- In the loop of `waitForTask`. -/
  | waiting (task : IyokanStarpuTask)
  /-- In `starpu_data_acquire` of `synchronizeOutput`, called when there were `count` tasks. -/
  | acquiring (task : IyokanStarpuTask) (count : Nat)
  /-- In `starpu_data_acquire` of a `mark` function, called when there were `count` tasks. -/
  | marking (place : Place) (handle : Handle) (count : Nat)
  /-- In `shutdownIyokanStarpu`, holding `backendMutex`. -/
  | shuttingDown

namespace Pc

/-- After `ensureStarpu`. -/
def ensured : Option (GateCall Key) → Pc Key
  | some call => .submitting call []
  | none => .idle

/-- The thread is inside a gate call or a prepare call, before its task is submitted. -/
def Entered : Pc Key → Prop
  | .ensuring _ _ | .binding _ _ | .submitting _ _ => True
  | _ => False

end Pc

structure Thread (Key : Type) where
  pc : Pc Key := .idle
  capture : ThreadLocal := {}
  /-- The tasks of the capture. -/
  scope : List IyokanStarpuTask := []

/-- A capture that has ended: its tasks, and the token that was returned. -/
structure Capture where
  tasks : List IyokanStarpuTask
  token : Option IyokanStarpuTask
deriving DecidableEq

structure System (Tid Key N V : Type) where
  world : World Key := {}
  runtime : Runtime Handle N V
  /-- What the objects hold that are not registered. -/
  memory : Place → V
  threads : Tid → Thread Key := fun _ => {}
  /-- The calls whose tasks StarPU has accepted, in that order. -/
  submitted : List (GateCall Key) := []
  /-- The tokens whose `synchronizeOutput` has returned, until the host writes the output. -/
  synchronized : List IyokanStarpuTask := []
  captures : List Capture := []
  /-- The objects the host has written and not yet marked. -/
  dirty : List Place := []
  /-- The objects the host has written or marked. -/
  written : List Place := []
  /-- The last host write to an object, and how many tasks had been submitted before. -/
  lastWrite : Place → Option (V × Nat) := fun _ => none

namespace System

/-- Nothing has happened, and the objects hold `memory`. -/
def start [Inhabited V] (main : N) (memory : Place → V) : System Tid Key N V where
  runtime := Runtime.fresh main fun _ => default
  memory := memory

/-- What a host reader finds in an object. -/
def hostValue (main : N) (s : System Tid Key N V) (place : Place) : V :=
  match s.world.find place with
  | some handle => s.runtime.copies handle main
  | none => s.memory place

/-- Every task that touches the object has finished. -/
def Untouched (s : System Tid Key N V) (place : Place) : Prop :=
  ∀ i call, s.submitted[i]? = some call → place ∈ call.places → i ∈ s.runtime.finished

/-- Nobody holds `backendMutex` over several steps. -/
def Unlocked (s : System Tid Key N V) : Prop := ∀ t, (s.threads t).pc ≠ .shuttingDown

/-- The tokens whose output is another object. -/
def stillSynchronized (s : System Tid Key N V) (place : Place) : List IyokanStarpuTask :=
  s.synchronized.filter fun task => s.submitted[task]?.map GateCall.output ≠ some place

variable [DecidableEq Tid]

/-- Thread `t` goes to `pc`. -/
def goto (s : System Tid Key N V) (t : Tid) (pc : Pc Key) : System Tid Key N V :=
  { s with threads := Function.update s.threads t { s.threads t with pc := pc } }

/-- The backend has run a part of its code that left the globals `w`; what it called is
carried out. -/
def ran [Inhabited V] [DecidableEq N] (tfhe : TFHE Key V) (main : N) (s : System Tid Key N V)
    (w : World Key) : System Tid Key N V :=
  { s with
    world := w
    runtime := (w.calls.drop s.world.calls.length).foldl
      (serve tfhe main s.memory w.currentEvalKey) s.runtime }

/-- The backend has called a library. -/
def called (s : System Tid Key N V) (call : LibraryCall Key) : System Tid Key N V :=
  { s with world := { s.world with calls := s.world.calls ++ [call] } }

/-- Thread `t` has submitted the task of its call: `captureTask`, or on to
`waitForTask`. -/
def accepted (s : System Tid Key N V) (t : Tid) (call : GateCall Key) (task : IyokanStarpuTask) :
    System Tid Key N V :=
  let thread := s.threads t
  let capture := captureTask task thread.capture
  { s with
    submitted := s.submitted ++ [call]
    threads := Function.update s.threads t
      (if thread.capture.captureActive then
        { pc := .idle, capture := capture, scope := thread.scope ++ [task] }
      else { thread with pc := .waiting task }) }

/-- `synchronizeOutput` begins: it throws an error that is already known, and otherwise
asks for the output. -/
def ask (s : System Tid Key N V) (t : Tid) (task : IyokanStarpuTask) (state : TaskState) :
    System Tid Key N V :=
  if state.error = 0 then
    (s.called (.dataAcquire state.output .R)).goto t (.acquiring task s.runtime.tasks.length)
  else s.goto t .idle

/-- The host stores `v` into an object. -/
def hostWrite [DecidableEq N] (main : N) (s : System Tid Key N V) (place : Place) (v : V) :
    System Tid Key N V :=
  { s with
    runtime := match s.world.find place with
      | some handle => s.runtime.poke handle main v
      | none => s.runtime
    memory := match s.world.find place with
      | some _ => s.memory
      | none => Function.update s.memory place v
    synchronized := s.stillSynchronized place
    dirty := place :: s.dirty
    written := place :: s.written
    lastWrite := Function.update s.lastWrite place (some (v, s.submitted.length)) }

/-- A `mark` function returns. -/
def marked (s : System Tid Key N V) (place : Place) : System Tid Key N V :=
  { s with
    synchronized := s.stillSynchronized place
    dirty := s.dirty.filter (· ≠ place)
    written := place :: s.written }

end System

section Steps

variable [DecidableEq Tid] [DecidableEq Key] [DecidableEq N] [Inhabited V] (tfhe : TFHE Key V)
  (main : N) (useCufhepp : Bool)

/-- The steps of the threads, of the callbacks and of the workers, in any order. -/
inductive Step : System Tid Key N V → System Tid Key N V → Prop
  | configure (s : System Tid Key N V) (t : Tid) (cpuWorkers cudaDevices : Nat)
      (r : Except String PUnit) (w : World Key) (hpc : (s.threads t).pc = .idle)
      (hlock : s.Unlocked)
      (hexec : (configureIyokanStarpu cpuWorkers cudaDevices).exec s.world = (r, w)) :
      Step s (s.ran tfhe main w)
  | prepare (s : System Tid Key N V) (t : Tid) (key : Key) (hpc : (s.threads t).pc = .idle) :
      Step s (s.goto t (.ensuring (some key) none))
  | call (s : System Tid Key N V) (t : Tid) (call : GateCall Key)
      (hpc : (s.threads t).pc = .idle) :
      Step s (s.goto t (.ensuring call.evalKey (some call)))
  | ensure (s : System Tid Key N V) (t : Tid) (key : Option Key) (next : Option (GateCall Key))
      (answers : Answers) (r : Except String PUnit) (w : World Key)
      (hpc : (s.threads t).pc = .ensuring key next)
      (hexec : (ensureStarpuRuntime answers).exec s.world = (r, w)) :
      Step s ((s.ran tfhe main w).goto t (match r, key with
        | .ok _, some key => .binding key next
        | .ok _, none => .ensured next
        | .error _, _ => .idle))
  | bind (s : System Tid Key N V) (t : Tid) (key : Key) (next : Option (GateCall Key))
      (answers : Answers) (r : Except String PUnit) (w : World Key)
      (hpc : (s.threads t).pc = .binding key next) (hlock : s.Unlocked)
      (hexec : (bindEvalKey useCufhepp answers key).exec s.world = (r, w)) :
      Step s ((s.ran tfhe main w).goto t (match r with
        | .ok _ => .ensured next
        | .error _ => .idle))
  | handleFor (s : System Tid Key N V) (t : Tid) (call : GateCall Key) (handles : List Handle)
      (access : Access) (handle : Handle) (w : World Key)
      (hpc : (s.threads t).pc = .submitting call handles)
      (haccess : call.submission.accesses[handles.length]? = some access)
      (hexec : (handleFor access).exec s.world = (.ok handle, w)) :
      Step s ((s.ran tfhe main w).goto t (.submitting call (handles ++ [handle])))
  | insert (s : System Tid Key N V) (t : Tid) (call : GateCall Key) (handles : List Handle)
      (answers : Answers) (task : IyokanStarpuTask) (w : World Key)
      (hpc : (s.threads t).pc = .submitting call handles)
      (hall : handles.length = call.submission.accesses.length)
      (hclean : ∀ place ∈ call.places, place ∉ s.dirty)
      (hexec : (insertTask answers call.submission handles).exec s.world = (.ok task, w)) :
      Step s ((s.ran tfhe main w).accepted t call task)
  | refuse (s : System Tid Key N V) (t : Tid) (call : GateCall Key) (handles : List Handle)
      (answers : Answers) (text : String) (w : World Key)
      (hpc : (s.threads t).pc = .submitting call handles)
      (hall : handles.length = call.submission.accesses.length)
      (hexec : (insertTask answers call.submission handles).exec s.world = (.error text, w)) :
      Step s ((s.ran tfhe main w).goto t .idle)
  | completed (s : System Tid Key N V) (task : IyokanStarpuTask) (w : World Key)
      (hfinished : task ∈ s.runtime.finished)
      (hexec : (taskCompleted task).exec s.world = (.ok ⟨⟩, w)) : Step s (s.ran tfhe main w)
  | waited (s : System Tid Key N V) (t : Tid) (task : IyokanStarpuTask) (state : TaskState)
      (hpc : (s.threads t).pc = .waiting task) (hstate : s.world.states[task]? = some state)
      (hfinished : state.finished = true) : Step s (s.ask t task state)
  | synchronizeOutput (s : System Tid Key N V) (t : Tid) (task : IyokanStarpuTask)
      (state : TaskState) (hpc : (s.threads t).pc = .idle)
      (hstate : s.world.states[task]? = some state) : Step s (s.ask t task state)
  | acquired (s : System Tid Key N V) (t : Tid) (task : IyokanStarpuTask) (count : Nat)
      (state : TaskState) (hpc : (s.threads t).pc = .acquiring task count)
      (hstate : s.world.states[task]? = some state)
      (hclean : ∀ place ∈ s.dirty, s.world.find place ≠ some state.output)
      (hacquired : s.runtime.ReadAcquired main state.output count) :
      Step s { (s.called (.dataRelease state.output)).goto t .idle with
        synchronized := task :: s.synchronized }
  | failed (s : System Tid Key N V) (t : Tid) (task : IyokanStarpuTask) (count : Nat)
      (error : Int) (hpc : (s.threads t).pc = .acquiring task count) (herror : error ≠ 0) :
      Step s { s.goto t .idle with
        world := { s.world with
          states := s.world.states.modify task fun state => { state with error := error } } }
  | beginCapture (s : System Tid Key N V) (t : Tid) (capture : ThreadLocal)
      (hpc : (s.threads t).pc = .idle)
      (hcapture : beginIyokanStarpuCapture (s.threads t).capture = .ok capture) :
      Step s { s with threads := Function.update s.threads t { capture := capture } }
  | endCapture (s : System Tid Key N V) (t : Tid) (token : Option IyokanStarpuTask)
      (capture : ThreadLocal) (hpc : (s.threads t).pc = .idle)
      (hcapture : endIyokanStarpuCapture (s.threads t).capture = .ok (token, capture)) :
      Step s { s with
        threads := Function.update s.threads t { capture := capture }
        captures := ⟨(s.threads t).scope, token⟩ :: s.captures }
  | synchronizeCapture (s : System Tid Key N V) (t : Tid) (task : IyokanStarpuTask)
      (hpc : (s.threads t).pc = .idle)
      (hcapture : synchronizeIyokanStarpuCapture (s.threads t).capture = .ok (some task)) :
      Step s (s.goto t (.waiting task))
  | hostWrite (s : System Tid Key N V) (t : Tid) (place : Place) (v : V)
      (hpc : (s.threads t).pc = .idle) (hidle : s.Untouched place) :
      Step s (s.hostWrite main place v)
  | mark (s : System Tid Key N V) (t : Tid) (place : Place) (handle : Handle)
      (hpc : (s.threads t).pc = .idle) (hfind : s.world.find place = some handle) :
      Step s ((s.called (.dataAcquire handle .W)).goto t
        (.marking place handle s.runtime.tasks.length))
  | marked (s : System Tid Key N V) (t : Tid) (place : Place) (handle : Handle) (count : Nat)
      (hpc : (s.threads t).pc = .marking place handle count)
      (hacquired : s.runtime.WriteAcquired handle count) :
      Step s { ((s.called (.dataRelease handle)).goto t .idle).marked place with
        runtime := s.runtime.overwrite handle main (s.runtime.copies handle main) }
  | unmarked (s : System Tid Key N V) (t : Tid) (place : Place) (handle : Handle) (count : Nat)
      (hpc : (s.threads t).pc = .marking place handle count) : Step s (s.goto t .idle)
  | markUnregistered (s : System Tid Key N V) (t : Tid) (place : Place)
      (hpc : (s.threads t).pc = .idle) (hfind : s.world.find place = none) :
      Step s (s.marked place)
  | work (s : System Tid Key N V) (r : Runtime Handle N V) (h : s.runtime.Step r)
      (hrunning : s.world.starpuRunning = true)
      (hmain : ∀ place ∈ s.dirty, ∀ handle, s.world.find place = some handle →
        r.copies handle main = s.runtime.copies handle main) :
      Step s { s with runtime := r }

/-- `Step`, and calls to `shutdownIyokanStarpu` while no other thread is inside a gate call,
a prepare call or another shutdown.  It takes `backendMutex`, and where it calls
`starpu_task_wait_for_all` it goes on once all tasks have finished. -/
inductive LifeStep : System Tid Key N V → System Tid Key N V → Prop
  | step (s s' : System Tid Key N V) (h : Step tfhe main useCufhepp s s') : LifeStep s s'
  | shutdown (s : System Tid Key N V) (t : Tid) (hpc : (s.threads t).pc = .idle)
      (hothers : ∀ u, ¬ (s.threads u).pc.Entered) (hlock : s.Unlocked) :
      LifeStep s (s.goto t .shuttingDown)
  | shutDown (s : System Tid Key N V) (t : Tid) (w : World Key)
      (hpc : (s.threads t).pc = .shuttingDown)
      (hexec : (shutdownIyokanStarpu useCufhepp).exec s.world = (.ok ⟨⟩, w))
      (hwait : .taskWaitForAll ∈ w.calls.drop s.world.calls.length →
        ∀ i, i < s.runtime.tasks.length → i ∈ s.runtime.finished) :
      LifeStep s ({ s.ran tfhe main w with memory := s.hostValue main }.goto t .idle)

end Steps

end Tangor.Iyokan
