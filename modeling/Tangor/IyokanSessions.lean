/-
The backend in a sequence of calls.

The calls come one after the other, from any threads, with stores of the host in between.
What is added to `IyokanStarpuCodelets` is what such a sequence shows and uses up: what
each call returns or throws, what the objects hold in main memory, and the callback states
that `submit` allocates.

`Frame` is what a call works on.  Its code is that of `IyokanStarpuCodelets`, with the
`new` and the `delete` of the callback states written out and the thread-local variables
in the state.

`Store` is StarPU's data.  Implicit dependencies make the tasks take effect in the order
of their submission, so a task is run as it is submitted, on a CPU or on a device as the
call's `onDevice` has it.  What a sequence can tell apart is which copies of an object are
valid: a task on a device leaves main memory out of date until the host acquires the
object, and a store of the host is not seen by a device that has a valid copy.
-/
import Tangor.IyokanThreads

namespace Tangor.Iyokan

open Throwing TaskGraph

variable {Tid Key V : Type}

/-! ### Callback states -/

/-- The states `new` has returned for the callbacks, by number. -/
structure Callbacks where
  allocated : Nat := 0
  /-- Those of the tasks whose callback has not run. -/
  attached : List (IyokanStarpuTask × Nat) := []
  /-- Those that have been deleted, the last one at the end. -/
  deleted : List Nat := []
deriving DecidableEq, Repr

namespace Callbacks

/-- `new std::shared_ptr<IyokanStarpuTask::State>`. -/
def new (c : Callbacks) : Callbacks := { c with allocated := c.allocated + 1 }

def delete (c : Callbacks) (callbackState : Nat) : Callbacks :=
  { c with deleted := c.deleted ++ [callbackState] }

/-- The task has been accepted with its callback. -/
def attach (c : Callbacks) (task : IyokanStarpuTask) (callbackState : Nat) : Callbacks :=
  { c with attached := (task, callbackState) :: c.attached }

/-- StarPU runs the callback of a task once. -/
def complete (c : Callbacks) (task : IyokanStarpuTask) : Callbacks :=
  match c.attached.lookup task with
  | some callbackState =>
      { c with attached := c.attached.filter fun entry => entry.1 ≠ task }.delete callbackState
  | none => c

end Callbacks

/-- What a call works on. -/
structure Frame (Key : Type) where
  world : World Key
  callbacks : Callbacks
  thread : ThreadLocal

/-- A part of the backend on the globals. -/
def onWorld {α : Type} (m : Backend Key α) : Code (Frame Key) String α :=
  m.zoom Frame.world fun f w => { f with world := w }

/-- A function on the thread-local variables. -/
def onThread {α : Type} (g : ThreadLocal → Except String (α × ThreadLocal)) :
    Code (Frame Key) String α := do
  match g (← get).thread with
  | .ok (a, thread) =>
      modify fun f => { f with thread := thread }
      return a
  | .error text => throw text

/-! ### The calls -/

namespace Frame

def insertTask (answers : Answers) (submission : Submission) (handles : List Handle) :
    Code (Frame Key) String IyokanStarpuTask := do
  let callbackState := (← get).callbacks.allocated
  modify fun f => { f with callbacks := f.callbacks.new }
  onWorld (libraryCall (.taskInsert submission.codelet
    ((submission.accesses.map Access.mode).zip handles) answers.insert))
  if answers.insert ≠ 0 then
    modify fun f => { f with callbacks := f.callbacks.delete callbackState }
    throw submission.failure
  let task := (← get).world.states.length
  modify fun f => { f with
    world := { f.world with states := f.world.states ++ [{ output := handles.headD 0 }] }
    callbacks := f.callbacks.attach task callbackState }
  return task

def submit (answers : Answers) (submission : Submission) :
    Code (Frame Key) String IyokanStarpuTask := do
  let handles ← onWorld (submission.accesses.mapM handleFor)
  insertTask answers submission handles

def waitForTask (answers : Answers) (task : IyokanStarpuTask) : Code (Frame Key) String PUnit := do
  onWorld (taskCompleted task)
  modify fun f => { f with callbacks := f.callbacks.complete task }
  onWorld (synchronizeOutput answers task)

def runIyokanStarpu [DecidableEq Key] (useCufhepp : Bool) (answers : Answers)
    (call : GateCall Key) : Code (Frame Key) String PUnit := do
  onWorld (ensureFor useCufhepp answers call.evalKey)
  let task ← submit answers call.submission
  if (← get).thread.captureActive then
    modify fun f => { f with thread := captureTask task f.thread }
  else
    waitForTask answers task

/-- One call, and the token it returns. -/
def run [DecidableEq Key] (useCufhepp : Bool) (answers : Answers) :
    ApiCall Key → Code (Frame Key) String (Option IyokanStarpuTask)
  | .configureIyokanStarpu cpuWorkers cudaDevices => do
      onWorld (configureIyokanStarpu cpuWorkers cudaDevices)
      return none
  | .prepareIyokanStarpu evalKey => do
      onWorld (ensureStarpu useCufhepp answers evalKey)
      return none
  | .runIyokanStarpu call => do
      runIyokanStarpu useCufhepp answers call
      return none
  | .synchronizeOutput task => do
      onWorld (synchronizeOutput answers task)
      return none
  | .beginIyokanStarpuCapture => do
      onThread fun thread => (beginIyokanStarpuCapture thread).map fun thread => ((), thread)
      return none
  | .endIyokanStarpuCapture => onThread endIyokanStarpuCapture
  | .synchronizeIyokanStarpuCapture => do
      let captured ← onThread fun thread =>
        (synchronizeIyokanStarpuCapture thread).map fun captured => (captured, thread)
      match captured with
      | some task => do
          waitForTask answers task
          return none
      | none => return none
  | .markIyokanTLWEHostWrite value => do
      onWorld (markIyokanTLWEHostWrite answers value)
      return none
  | .markIyokanTRLWEHostWrite value | .markIyokanTRGSWFFTHostWrite value => do
      onWorld (markVariableHostWrite answers value)
      return none
  | .shutdownIyokanStarpu => do
      onWorld (shutdownIyokanStarpu useCufhepp)
      return none

end Frame

/-! ### StarPU's data -/

/-- Which copies of a registered object are valid. -/
structure Copies (V : Type) where
  /-- The one in main memory is. -/
  main : Bool := true
  /-- What a valid one on the devices holds. -/
  device : Option V := none
deriving DecidableEq

namespace Copies

/-- What the object holds, if there is `v` in main memory. -/
def content (c : Copies V) (v : V) : V := if c.main then v else c.device.getD v

/-- The copies once there is a valid one where `onDevice` says. -/
def bring (onDevice : Bool) (c : Copies V) (v : V) : Copies V :=
  if onDevice then { c with device := some (c.device.getD v) } else { c with main := true }

/-- The copies once `v` has been stored where `onDevice` says. -/
def write (onDevice : Bool) (v : V) : Copies V :=
  if onDevice then { main := false, device := some v } else {}

end Copies

structure Store (V : Type) where
  /-- What is in main memory. -/
  memory : Address → V
  /-- What a handle is registered for. -/
  buffer : Handle → Option Place := fun _ => none
  copies : Handle → Copies V := fun _ => {}
  /-- The mode of the last acquisition. -/
  acquired : AccessMode := .R

namespace Store

def register (σ : Store V) (handle : Handle) (place : Place) : Store V :=
  { σ with
    buffer := Function.update σ.buffer handle (some place)
    copies := Function.update σ.copies handle {} }

def unregister (σ : Store V) (handle : Handle) : Store V :=
  { σ with buffer := Function.update σ.buffer handle none }

/-- Make the copy valid that a worker, or the host, is going to read. -/
def bring (onDevice : Bool) (σ : Store V) (handle : Handle) : Store V :=
  match σ.buffer handle with
  | none => σ
  | some (_, address) =>
      { σ with
        memory := if onDevice then σ.memory else
          Function.update σ.memory address ((σ.copies handle).content (σ.memory address))
        copies := Function.update σ.copies handle
          ((σ.copies handle).bring onDevice (σ.memory address)) }

/-- What is in the copy that has been brought. -/
def read (onDevice : Bool) (σ : Store V) (handle : Handle) : Option V :=
  if onDevice then (σ.copies handle).device
  else (σ.buffer handle).map fun (_, address) => σ.memory address

/-- Store into the copy of a worker; it is the only valid one then. -/
def write (onDevice : Bool) (σ : Store V) (handle : Handle) (v : V) : Store V :=
  match σ.buffer handle with
  | none => σ
  | some (_, address) =>
      { σ with
        memory := if onDevice then σ.memory else Function.update σ.memory address v
        copies := Function.update σ.copies handle (Copies.write onDevice v) }

/-- Run a task where `onDevice` says. -/
def execute [Inhabited V] (onDevice : Bool) (σ : Store V) (task : Task Handle V) : Store V :=
  let brought := task.operands.foldl (bring onDevice) σ
  brought.write onDevice task.target
    (task.fn (task.operands.map fun handle => (brought.read onDevice handle).getD default))

/-- The host gives back what it has acquired.  Where it was to write, main memory is what
counts from now on. -/
def release (σ : Store V) (handle : Handle) : Store V :=
  match σ.acquired with
  | .R => σ.bring false handle
  | .W | .RW => { σ with copies := Function.update σ.copies handle {} }

/-- What a library call does to the data.  An acquisition that is refused is never
released, and has no effect. -/
def after [Inhabited V] (tfhe : TFHE Key V) (onDevice : Bool) (currentEvalKey : Option Key)
    (σ : Store V) : LibraryCall Key → Store V
  | .vectorDataRegister handle data => σ.register handle (.persistentHandles, data)
  | .variableDataRegister handle value _ => σ.register handle (.persistentVariableHandles, value)
  | .dataUnregisterNoCoherency handle => σ.unregister handle
  | .dataAcquire _ mode => { σ with acquired := mode }
  | .dataRelease handle => σ.release handle
  | .taskInsert codelet ((mode, target) :: sources) status =>
      if status = 0 then
        σ.execute onDevice (insertedTask tfhe currentEvalKey codelet mode target sources)
      else σ
  | _ => σ

end Store

/-! ### Sequences of calls -/

structure Session (Tid Key V : Type) where
  world : World Key := {}
  callbacks : Callbacks := {}
  threads : Tid → ThreadLocal := fun _ => {}
  store : Store V

/-- What happens next. -/
inductive Event (Tid Key V : Type) where
  /-- A call on thread `t`; a task it submits runs where `onDevice` says. -/
  | call (t : Tid) (call : ApiCall Key) (answers : Answers) (onDevice : Bool)
  /-- The host stores `v`. -/
  | hostWrite (address : Address) (v : V)

/-- What can be seen of an event: what the call returned or threw, and main memory. -/
structure Observation (V : Type) where
  result : Except String (Option IyokanStarpuTask)
  memory : Address → V

namespace Session

/-- Nothing has been called, and main memory holds `memory`. -/
def start (memory : Address → V) : Session Tid Key V where
  store := { memory := memory }

/-- The frame of a call on thread `t`. -/
def frame (s : Session Tid Key V) (t : Tid) : Frame Key := ⟨s.world, s.callbacks, s.threads t⟩

variable [DecidableEq Tid] [Inhabited V] (tfhe : TFHE Key V)

/-- A call on thread `t` has left the frame `f`. -/
def left (s : Session Tid Key V) (t : Tid) (onDevice : Bool) (f : Frame Key) :
    Session Tid Key V where
  world := f.world
  callbacks := f.callbacks
  threads := Function.update s.threads t f.thread
  store := (f.world.calls.drop s.world.calls.length).foldl
    (Store.after tfhe onDevice f.world.currentEvalKey) s.store

variable [DecidableEq Key] (useCufhepp : Bool)

/-- One call, and what it returns or throws. -/
def perform (s : Session Tid Key V) (t : Tid) (call : ApiCall Key) (answers : Answers)
    (onDevice : Bool) : Except String (Option IyokanStarpuTask) × Session Tid Key V :=
  let done := (Frame.run useCufhepp answers call).exec (s.frame t)
  (done.1, s.left tfhe t onDevice done.2)

def step (s : Session Tid Key V) :
    Event Tid Key V → Except String (Option IyokanStarpuTask) × Session Tid Key V
  | .call t call answers onDevice => s.perform tfhe useCufhepp t call answers onDevice
  | .hostWrite address v =>
      (.ok none, { s with
        store := { s.store with memory := Function.update s.store.memory address v } })

/-- A sequence of events: what is seen of each, and what is left. -/
def run (s : Session Tid Key V) :
    List (Event Tid Key V) → List (Observation V) × Session Tid Key V
  | [] => ([], s)
  | event :: rest =>
      let (result, s') := s.step tfhe useCufhepp event
      let (seen, last) := s'.run rest
      (⟨result, s'.store.memory⟩ :: seen, last)

end Session

end Tangor.Iyokan
