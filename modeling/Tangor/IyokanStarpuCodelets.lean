/-
The KVSP backend, `src/iyokan-starpu-codelets.cpp`: gate calls as StarPU tasks.

A gate call names ciphertext objects by their addresses.  The backend starts StarPU on
the first call, keeps one handle per object in two registries, inserts one task over the
handles of the operands, and either waits for it or, between `beginIyokanStarpuCapture`
and `endIyokanStarpuCapture`, leaves it running and remembers its token.

`World` is what the process shares: the globals of the file, `cufheppInitialized` of
`iyokan-cufhepp-starpu.cu`, the states behind the tokens, and the calls made to StarPU,
cuFHEpp and `atexit`.  What those answer is given by an `Answers`.  `ThreadLocal` is the
capture of one thread.
-/
import Tangor.Throwing

namespace Tangor.Iyokan

open Throwing

/-- A pointer to a ciphertext object. -/
abbrev Address := Nat

/-- `starpu_data_handle_t`.  No two registrations give the same one. -/
abbrev Handle := Nat

inductive IyokanBinaryGate where
  | AND | NAND | ANDNOT | OR | NOR | ORNOT | XOR | XNOR
deriving DecidableEq, Repr

/-- The `starpu_codelet`s of the file. -/
inductive IyokanCodelet where
  | binaryCodelet (gate : IyokanBinaryGate)
  | notCodelet
  | muxCodelet
  | cmuxFFTCodelet
  | cmuxFFTInPlaceTrueCodelet
  | cmuxFFTInPlaceFalseCodelet
  | muxWoSECodelet
deriving DecidableEq, Repr

/-- `codeletFor`. -/
def codeletFor (gate : IyokanBinaryGate) : IyokanCodelet := .binaryCodelet gate

/-- `enum starpu_data_access_mode`, as far as it is used here. -/
inductive AccessMode where
  | R | W | RW
deriving DecidableEq, Repr

/-- `IyokanTLWE`, `IyokanTRLWE` and `IyokanTRGSWFFT`. -/
inductive CipherType where
  | tlwe | trlwe | trgswFFT
deriving DecidableEq, Repr

/-- The two maps from addresses to handles. -/
inductive Registry where
  | persistentHandles
  | persistentVariableHandles
deriving DecidableEq, Repr

/-- A key of a registry. -/
abbrev Place := Registry × Address

/-- What is registered with `std::atexit`. -/
inductive ExitHandler where
  | shutdownIyokanStarpu
  | cleanupIyokanCufhepp
deriving DecidableEq, Repr

/-- The calls the backend makes to the libraries below it. -/
inductive LibraryCall (Key : Type) where
  | starpuInit (ncpus : Option Nat) (ncuda : Nat) (status : Int)
  | starpuShutdown
  | vectorDataRegister (handle : Handle) (data : Address)
  | variableDataRegister (handle : Handle) (value : Address) (size : CipherType)
  | dataUnregisterNoCoherency (handle : Handle)
  | dataAcquire (handle : Handle) (mode : AccessMode)
  | dataRelease (handle : Handle)
  | taskInsert (codelet : IyokanCodelet) (buffers : List (AccessMode × Handle)) (status : Int)
  | taskWaitForAll
  | cudaWorkerGetCount
  | cufheInitialize (evalKey : Key)
  | cufheCleanUp
  | atexit (handler : ExitHandler)
deriving DecidableEq, Repr

/-- What the libraries answer while one call into the backend is served. -/
structure Answers where
  /-- The status of `starpu_init`. -/
  init : Int := 0
  /-- The status of `starpu_task_insert`. -/
  insert : Int := 0
  /-- The status of `starpu_data_acquire`. -/
  acquire : Int := 0
  /-- `starpu_cuda_worker_get_count`. -/
  cudaWorkers : Nat := 0
  /-- The count of `cudaGetDeviceCount`, 0 when it fails. -/
  cudaDevices : Nat := 0

/-- `IyokanStarpuTask::State`. -/
structure TaskState where
  finished : Bool := false
  error : Int := 0
  output : Handle
deriving DecidableEq, Repr

/-- An `IyokanStarpuTask`: the place of its state among `World.states`. -/
abbrev IyokanStarpuTask := Nat

structure World (Key : Type) where
  currentEvalKey : Option Key := none
  /-- `starpuInitOnce` has been used. -/
  starpuInitOnce : Bool := false
  starpuInitStatus : Int := -1
  starpuRunning : Bool := false
  configuredCpuWorkers : Nat := 0
  configuredCudaDevices : Nat := 0
  persistentHandles : List (Address × Handle) := []
  persistentVariableHandles : List (Address × Handle) := []
  cufheppInitialized : Bool := false
  states : List TaskState := []
  /-- The handle StarPU gives out next. -/
  nextHandle : Handle := 0
  /-- The calls made to the libraries, the last one at the end. -/
  calls : List (LibraryCall Key) := []
deriving DecidableEq

/-- The thread-local variables. -/
structure ThreadLocal where
  captureActive : Bool := false
  capturedTask : Option IyokanStarpuTask := none
deriving DecidableEq, Repr

variable {Key : Type}

/-- A part of the backend: it works on the globals and may throw a text. -/
abbrev Backend (Key α : Type) := Code (World Key) String α

def libraryCall (call : LibraryCall Key) : Backend Key PUnit :=
  modify fun w => { w with calls := w.calls ++ [call] }

/-! ### The runtime and the key -/

def ensureStarpuRuntime (answers : Answers) : Backend Key PUnit := do
  if !(← get).starpuInitOnce then
    let w ← get
    libraryCall (.starpuInit
      (if w.configuredCpuWorkers > 0 then some w.configuredCpuWorkers else none)
      w.configuredCudaDevices answers.init)
    modify fun w => { w with starpuInitOnce := true, starpuInitStatus := answers.init }
    if answers.init = 0 then
      modify fun w => { w with starpuRunning := true }
      libraryCall (.atexit .shutdownIyokanStarpu)
  if (← get).starpuInitStatus ≠ 0 then
    throw "Tangor could not initialize StarPU"

def initializeIyokanCufhepp (answers : Answers) (evalKey : Key) : Backend Key PUnit := do
  if !(← get).cufheppInitialized then
    libraryCall .cudaWorkerGetCount
    if answers.cudaWorkers ≠ 0 ∧ answers.cudaDevices ≠ 0 then
      libraryCall (.cufheInitialize evalKey)
      modify fun w => { w with cufheppInitialized := true }
      libraryCall (.atexit .cleanupIyokanCufhepp)

def cleanupIyokanCufhepp : Backend Key PUnit := do
  if (← get).cufheppInitialized then
    libraryCall .cufheCleanUp
    modify fun w => { w with cufheppInitialized := false }

/-- What `ensureStarpu` does under `backendMutex`; `useCufhepp` is `USE_CUFHEPP`. -/
def bindEvalKey [DecidableEq Key] (useCufhepp : Bool) (answers : Answers) (evalKey : Key) :
    Backend Key PUnit := do
  match (← get).currentEvalKey with
  | none => modify fun w => { w with currentEvalKey := some evalKey }
  | some currentEvalKey =>
      if currentEvalKey ≠ evalKey then
        throw "Tangor's KVSP StarPU backend cannot evaluate two keys in one process"
  if useCufhepp then
    initializeIyokanCufhepp answers evalKey

def ensureStarpu [DecidableEq Key] (useCufhepp : Bool) (answers : Answers) (evalKey : Key) :
    Backend Key PUnit := do
  ensureStarpuRuntime answers
  bindEvalKey useCufhepp answers evalKey

def configureIyokanStarpu (cpuWorkers cudaDevices : Nat) : Backend Key PUnit := do
  let w ← get
  if w.starpuRunning ∨ w.starpuInitStatus ≠ -1 then
    throw "Tangor's StarPU worker configuration is already active"
  modify fun w =>
    { w with configuredCpuWorkers := cpuWorkers, configuredCudaDevices := cudaDevices }

/-- `starpu_data_unregister_no_coherency` on every handle of a registry. -/
def unregisterAll (registry : List (Address × Handle)) : Backend Key PUnit :=
  registry.forM fun entry => libraryCall (.dataUnregisterNoCoherency entry.2)

def shutdownIyokanStarpu (useCufhepp : Bool) : Backend Key PUnit := do
  if (← get).starpuRunning then
    libraryCall .taskWaitForAll
    unregisterAll (← get).persistentHandles
    unregisterAll (← get).persistentVariableHandles
    modify fun w => { w with persistentHandles := [], persistentVariableHandles := [] }
    if useCufhepp then
      cleanupIyokanCufhepp
    modify fun w => { w with currentEvalKey := none }
    libraryCall .starpuShutdown
    modify fun w => { w with starpuRunning := false }

/-! ### The registries -/

/-- `find`, in either registry. -/
def World.find (w : World Key) : Place → Option Handle
  | (.persistentHandles, address) => w.persistentHandles.lookup address
  | (.persistentVariableHandles, address) => w.persistentVariableHandles.lookup address

/-- `emplace`, in either registry. -/
def World.emplace (w : World Key) (handle : Handle) : Place → World Key
  | (.persistentHandles, address) =>
      { w with persistentHandles := (address, handle) :: w.persistentHandles }
  | (.persistentVariableHandles, address) =>
      { w with persistentVariableHandles := (address, handle) :: w.persistentVariableHandles }

/-- Find the handle of a place, or have `register` called with a new one. -/
def findOrRegister (place : Place) (register : Handle → LibraryCall Key) :
    Backend Key Handle := do
  match (← get).find place with
  | some handle => return handle
  | none =>
      let handle := (← get).nextHandle
      libraryCall (register handle)
      modify fun w => { w.emplace handle place with nextHandle := handle + 1 }
      return handle

def persistentHandleFor (data : Address) : Backend Key Handle :=
  findOrRegister (.persistentHandles, data) fun handle => .vectorDataRegister handle data

def persistentVariableHandleFor (value : Address) (size : CipherType) : Backend Key Handle :=
  findOrRegister (.persistentVariableHandles, value) fun handle =>
    .variableDataRegister handle value size

/-- One operand of a task. -/
structure Access where
  mode : AccessMode
  type : CipherType
  address : Address
deriving DecidableEq, Repr

/-- Where the handle of an operand is kept. -/
def Access.place (access : Access) : Place :=
  match access.type with
  | .tlwe => (.persistentHandles, access.address)
  | .trlwe | .trgswFFT => (.persistentVariableHandles, access.address)

def handleFor (access : Access) : Backend Key Handle :=
  match access.type with
  | .tlwe => persistentHandleFor access.address
  | .trlwe => persistentVariableHandleFor access.address .trlwe
  | .trgswFFT => persistentVariableHandleFor access.address .trgswFFT

/-! ### Submitting a task -/

/-- What a call submits, and what it throws when StarPU does not accept it. -/
structure Submission where
  codelet : IyokanCodelet
  output : Access
  inputs : List Access
  failure : String
deriving DecidableEq, Repr

def Submission.accesses (submission : Submission) : List Access :=
  submission.output :: submission.inputs

def submitAsync (codelet : IyokanCodelet) (output : Address) (inputs : List Address) :
    Submission where
  codelet := codelet
  output := ⟨.W, .tlwe, output⟩
  inputs := inputs.map fun input => ⟨.R, .tlwe, input⟩
  failure := "Tangor could not submit an asynchronous StarPU gate"

def submitVariableAsync (codelet : IyokanCodelet) (output : Access) (inputs : List Access) :
    Submission where
  codelet := codelet
  output := output
  inputs := inputs
  failure := "Tangor could not submit a StarPU RAM task"

def submitMuxWoSEAsync (output select whenTrue whenFalse : Address) : Submission where
  codelet := .muxWoSECodelet
  output := ⟨.W, .trlwe, output⟩
  inputs := [⟨.R, .tlwe, select⟩, ⟨.R, .tlwe, whenTrue⟩, ⟨.R, .tlwe, whenFalse⟩]
  failure := "Tangor could not submit a StarPU RAM MUX task"

/-- `starpu_task_insert` and the token of the task. -/
def insertTask (answers : Answers) (submission : Submission) (handles : List Handle) :
    Backend Key IyokanStarpuTask := do
  libraryCall (.taskInsert submission.codelet
    ((submission.accesses.map Access.mode).zip handles) answers.insert)
  if answers.insert ≠ 0 then
    throw submission.failure
  let task := (← get).states.length
  modify fun w => { w with states := w.states ++ [{ output := handles.headD 0 }] }
  return task

def submit (answers : Answers) (submission : Submission) : Backend Key IyokanStarpuTask := do
  let handles ← submission.accesses.mapM handleFor
  insertTask answers submission handles

/-! ### Waiting for a task -/

/-- The callback of a task. -/
def taskCompleted (task : IyokanStarpuTask) : Backend Key PUnit :=
  modify fun w => { w with states := w.states.modify task fun s => { s with finished := true } }

def synchronizeOutput (answers : Answers) (task : IyokanStarpuTask) : Backend Key PUnit := do
  match (← get).states[task]? with
  | none => pure ⟨⟩
  | some state =>
      if state.error = 0 then
        libraryCall (.dataAcquire state.output .R)
        if answers.acquire = 0 then
          libraryCall (.dataRelease state.output)
        else
          modify fun w =>
            { w with
              states := w.states.modify task fun s => { s with error := answers.acquire } }
          throw "Tangor could not synchronize a StarPU output"
      else
        throw "Tangor could not synchronize a StarPU output"

/-- `waitForTask`: the loop ends once the callback has run. -/
def waitForTask (answers : Answers) (task : IyokanStarpuTask) : Backend Key PUnit := do
  taskCompleted task
  synchronizeOutput answers task

/-! ### Host writes -/

/-- Hand the handle of a registered object to the host for writing. -/
def acquireForWrite (answers : Answers) (failure : String) :
    Option Handle → Backend Key PUnit
  | none => pure ⟨⟩
  | some handle => do
      libraryCall (.dataAcquire handle .W)
      if answers.acquire ≠ 0 then
        throw failure
      libraryCall (.dataRelease handle)

def markIyokanTLWEHostWrite (answers : Answers) (value : Address) : Backend Key PUnit := do
  acquireForWrite answers "Tangor could not mark a CPU TLWE write"
    ((← get).find (.persistentHandles, value))

/-- `markIyokanTRLWEHostWrite` and `markIyokanTRGSWFFTHostWrite` are this. -/
def markVariableHostWrite (answers : Answers) (value : Address) : Backend Key PUnit := do
  acquireForWrite answers "Tangor could not mark a CPU variable write"
    ((← get).find (.persistentVariableHandles, value))

/-! ### Captures -/

def captureTask (task : IyokanStarpuTask) (thread : ThreadLocal) : ThreadLocal :=
  if thread.captureActive then { thread with capturedTask := some task } else thread

def beginIyokanStarpuCapture (thread : ThreadLocal) : Except String ThreadLocal :=
  if thread.captureActive then
    .error "Tangor nested an Iyokan StarPU capture"
  else
    .ok { captureActive := true, capturedTask := none }

/-- The token of the capture, and the thread after it. -/
def endIyokanStarpuCapture (thread : ThreadLocal) :
    Except String (Option IyokanStarpuTask × ThreadLocal) :=
  if thread.captureActive then
    .ok (thread.capturedTask, { captureActive := false, capturedTask := none })
  else
    .error "Tangor ended an inactive Iyokan StarPU capture"

/-- The task `synchronizeIyokanStarpuCapture` waits for. -/
def synchronizeIyokanStarpuCapture (thread : ThreadLocal) :
    Except String (Option IyokanStarpuTask) :=
  if thread.captureActive then
    .ok thread.capturedTask
  else
    .error "Tangor synchronized an inactive Iyokan StarPU capture"

/-! ### The gate calls -/

/-- `runIyokanStarpuBinaryGate`, `runIyokanStarpuNot`, `runIyokanStarpuMux`,
`runIyokanStarpuCMUXFFT` and `runIyokanStarpuMuxWoSE` with their arguments. -/
inductive GateCall (Key : Type) where
  | binaryGate (gate : IyokanBinaryGate) (output left right : Address) (evalKey : Key)
  | not (output input : Address)
  | mux (output select whenTrue whenFalse : Address) (evalKey : Key)
  | cmuxFFT (output select whenTrue whenFalse : Address)
  | muxWoSE (output select whenTrue whenFalse : Address) (evalKey : Key)
deriving DecidableEq, Repr

namespace GateCall

/-- The key of a call that bootstraps. -/
def evalKey : GateCall Key → Option Key
  | .binaryGate _ _ _ _ evalKey => some evalKey
  | .not _ _ => none
  | .mux _ _ _ _ evalKey => some evalKey
  | .cmuxFFT _ _ _ _ => none
  | .muxWoSE _ _ _ _ evalKey => some evalKey

/-- What the call submits. -/
def submission : GateCall Key → Submission
  | .binaryGate gate output left right _ => submitAsync (codeletFor gate) output [left, right]
  | .not output input => submitAsync .notCodelet output [input]
  | .mux output select whenTrue whenFalse _ =>
      submitAsync .muxCodelet output [select, whenTrue, whenFalse]
  | .cmuxFFT output select whenTrue whenFalse =>
      if output = whenTrue then
        submitVariableAsync .cmuxFFTInPlaceTrueCodelet ⟨.RW, .trlwe, output⟩
          [⟨.R, .trgswFFT, select⟩, ⟨.R, .trlwe, whenFalse⟩]
      else if output = whenFalse then
        submitVariableAsync .cmuxFFTInPlaceFalseCodelet ⟨.RW, .trlwe, output⟩
          [⟨.R, .trgswFFT, select⟩, ⟨.R, .trlwe, whenTrue⟩]
      else
        submitVariableAsync .cmuxFFTCodelet ⟨.W, .trlwe, output⟩
          [⟨.R, .trgswFFT, select⟩, ⟨.R, .trlwe, whenTrue⟩, ⟨.R, .trlwe, whenFalse⟩]
  | .muxWoSE output select whenTrue whenFalse _ =>
      submitMuxWoSEAsync output select whenTrue whenFalse

end GateCall

/-- `ensureStarpu`, or `ensureStarpuRuntime` where there is no key. -/
def ensureFor [DecidableEq Key] (useCufhepp : Bool) (answers : Answers) :
    Option Key → Backend Key PUnit
  | some evalKey => ensureStarpu useCufhepp answers evalKey
  | none => ensureStarpuRuntime answers

/-- A gate call on a thread. -/
def runIyokanStarpu [DecidableEq Key] (useCufhepp : Bool) (answers : Answers)
    (call : GateCall Key) (thread : ThreadLocal) : Backend Key ThreadLocal := do
  ensureFor useCufhepp answers call.evalKey
  let task ← submit answers call.submission
  if !thread.captureActive then
    waitForTask answers task
  return captureTask task thread

/-! ### The interface -/

/-- The calls a thread can make. -/
inductive ApiCall (Key : Type) where
  | configureIyokanStarpu (cpuWorkers cudaDevices : Nat)
  | prepareIyokanStarpu (evalKey : Key)
  | runIyokanStarpu (call : GateCall Key)
  | synchronizeOutput (task : IyokanStarpuTask)
  | beginIyokanStarpuCapture
  | endIyokanStarpuCapture
  | synchronizeIyokanStarpuCapture
  | markIyokanTLWEHostWrite (value : Address)
  | markIyokanTRLWEHostWrite (value : Address)
  | markIyokanTRGSWFFTHostWrite (value : Address)
  | shutdownIyokanStarpu
deriving DecidableEq, Repr

/-- One call on a thread: what it does to the globals, and the thread after it. -/
def ApiCall.run [DecidableEq Key] (useCufhepp : Bool) (answers : Answers) (thread : ThreadLocal) :
    ApiCall Key → Backend Key ThreadLocal
  | .configureIyokanStarpu cpuWorkers cudaDevices => do
      Iyokan.configureIyokanStarpu cpuWorkers cudaDevices
      return thread
  | .prepareIyokanStarpu evalKey => do
      ensureStarpu useCufhepp answers evalKey
      return thread
  | .runIyokanStarpu call => Iyokan.runIyokanStarpu useCufhepp answers call thread
  | .synchronizeOutput task => do
      Iyokan.synchronizeOutput answers task
      return thread
  | .beginIyokanStarpuCapture =>
      match Iyokan.beginIyokanStarpuCapture thread with
      | .ok thread => return thread
      | .error text => throw text
  | .endIyokanStarpuCapture =>
      match Iyokan.endIyokanStarpuCapture thread with
      | .ok (_, thread) => return thread
      | .error text => throw text
  | .synchronizeIyokanStarpuCapture =>
      match Iyokan.synchronizeIyokanStarpuCapture thread with
      | .ok (some task) => do
          waitForTask answers task
          return thread
      | .ok none => return thread
      | .error text => throw text
  | .markIyokanTLWEHostWrite value => do
      Iyokan.markIyokanTLWEHostWrite answers value
      return thread
  | .markIyokanTRLWEHostWrite value | .markIyokanTRGSWFFTHostWrite value => do
      markVariableHostWrite answers value
      return thread
  | .shutdownIyokanStarpu => do
      Iyokan.shutdownIyokanStarpu useCufhepp
      return thread

/-- A process with one thread. -/
structure Process (Key : Type) where
  world : World Key := {}
  thread : ThreadLocal := {}
deriving DecidableEq

namespace Process

variable [DecidableEq Key] (useCufhepp : Bool)

/-- One call: whether it returns or throws, and the process after it. -/
def perform (p : Process Key) (call : ApiCall Key) (answers : Answers) :
    Except String Unit × Process Key :=
  match (call.run useCufhepp answers p.thread).exec p.world with
  | (.ok thread, world) => (.ok (), ⟨world, thread⟩)
  | (.error text, world) => (.error text, ⟨world, p.thread⟩)

/-- The process after a sequence of calls, each with what the libraries answer. -/
def performAll (p : Process Key) (calls : List (ApiCall Key × Answers)) : Process Key :=
  calls.foldl (fun p entry => (p.perform useCufhepp entry.1 entry.2).2) p

/-- `holds` is true of every call of a sequence, in the process it is made in. -/
def Each (holds : Process Key → ApiCall Key → Answers → Prop) :
    Process Key → List (ApiCall Key × Answers) → Prop
  | _, [] => True
  | p, (call, answers) :: rest =>
      holds p call answers ∧ Each holds (p.perform useCufhepp call answers).2 rest

end Process

end Tangor.Iyokan
