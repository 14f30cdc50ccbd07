/-
What each part of the backend does.

The parts that a lock protects, and the calls made without one, are run to completion
by one thread.  For each there is one lemma here that gives its result and the globals
after it; the proofs about whole calls, and about threads between whose parts others
run, use these and not the code.
-/
import Tangor.IyokanStarpuCodelets
import Mathlib.Tactic.SplitIfs

namespace Tangor.Iyokan

open Throwing

variable {Key : Type}

/-- The process after one more call to a library. -/
def World.call (w : World Key) (call : LibraryCall Key) : World Key :=
  { w with calls := w.calls ++ [call] }

@[simp] theorem exec_libraryCall (call : LibraryCall Key) (w : World Key) :
    (libraryCall call).exec w = (.ok ⟨⟩, w.call call) := rfl

@[simp] theorem exec_libraryCall_bind {α : Type} (call : LibraryCall Key)
    (f : PUnit → Backend Key α) (w : World Key) :
    (libraryCall call >>= f).exec w = (f ⟨⟩).exec (w.call call) := exec_bind_ok rfl

/-! ### The runtime and the key -/

/-- The globals after the first `ensureStarpuRuntime`. -/
def World.afterInit (w : World Key) (answers : Answers) : World Key :=
  { w with
    starpuInitOnce := true
    starpuInitStatus := answers.init
    starpuRunning := w.starpuRunning || decide (answers.init = 0)
    calls := w.calls ++ .starpuInit
      (if w.configuredCpuWorkers > 0 then some w.configuredCpuWorkers else none)
      w.configuredCudaDevices answers.init ::
        if answers.init = 0 then [.atexit .shutdownIyokanStarpu] else [] }

/-- `call_once` starts StarPU the first time, and the status decides every time. -/
theorem exec_ensureStarpuRuntime (answers : Answers) (w : World Key) :
    (ensureStarpuRuntime answers).exec w =
      let w' := if w.starpuInitOnce then w else w.afterInit answers
      (if w'.starpuInitStatus = 0 then .ok ⟨⟩
        else .error "Tangor could not initialize StarPU", w') := by
  cases honce : w.starpuInitOnce with
  | true =>
      simp [ensureStarpuRuntime, honce]
      split_ifs <;> rfl
  | false =>
      by_cases hinit : answers.init = 0 <;>
        simp [ensureStarpuRuntime, honce, hinit, World.afterInit, World.call]

/-- The key a call brings is the bound one, or none is bound. -/
def World.Accepts (w : World Key) (evalKey : Key) : Prop :=
  w.currentEvalKey = none ∨ w.currentEvalKey = some evalKey

/-- The globals after `initializeIyokanCufhepp`. -/
def World.initializeCufhepp (w : World Key) (answers : Answers) (evalKey : Key) : World Key :=
  if w.cufheppInitialized then w
  else if answers.cudaWorkers ≠ 0 ∧ answers.cudaDevices ≠ 0 then
    { ((w.call .cudaWorkerGetCount).call (.cufheInitialize evalKey)).call
        (.atexit .cleanupIyokanCufhepp) with cufheppInitialized := true }
  else w.call .cudaWorkerGetCount

theorem exec_initializeIyokanCufhepp (answers : Answers) (evalKey : Key) (w : World Key) :
    (initializeIyokanCufhepp answers evalKey).exec w
      = (.ok ⟨⟩, w.initializeCufhepp answers evalKey) := by
  cases hinit : w.cufheppInitialized with
  | true => simp [initializeIyokanCufhepp, World.initializeCufhepp, hinit]
  | false =>
      simp [initializeIyokanCufhepp, World.initializeCufhepp, hinit]
      split_ifs <;> rfl

variable [DecidableEq Key]

/-- The globals after an accepted key has been bound. -/
def World.bind (w : World Key) (useCufhepp : Bool) (answers : Answers) (evalKey : Key) :
    World Key :=
  let bound := { w with currentEvalKey := some evalKey }
  if useCufhepp then bound.initializeCufhepp answers evalKey else bound

theorem exec_bindEvalKey_accepted {w : World Key} (useCufhepp : Bool) (answers : Answers)
    {evalKey : Key} (h : w.Accepts evalKey) :
    (bindEvalKey useCufhepp answers evalKey).exec w
      = (.ok ⟨⟩, w.bind useCufhepp answers evalKey) := by
  rcases h with h | h
  · cases useCufhepp <;> simp [bindEvalKey, h, World.bind, exec_initializeIyokanCufhepp]
  · have hsame : { w with currentEvalKey := some evalKey } = w := by rw [← h]
    cases useCufhepp <;> simp [bindEvalKey, h, World.bind, exec_initializeIyokanCufhepp, hsame]

theorem exec_bindEvalKey_rejected {w : World Key} (useCufhepp : Bool) (answers : Answers)
    {evalKey : Key} (h : ¬ w.Accepts evalKey) :
    (bindEvalKey useCufhepp answers evalKey).exec w
      = (.error "Tangor's KVSP StarPU backend cannot evaluate two keys in one process", w) := by
  obtain ⟨hnone, hother⟩ := not_or.mp h
  cases hkey : w.currentEvalKey with
  | none => exact absurd hkey hnone
  | some key =>
      have hne : key ≠ evalKey := by
        rintro rfl
        exact hother hkey
      simp [bindEvalKey, hkey, hne]

omit [DecidableEq Key]

theorem exec_configureIyokanStarpu (cpuWorkers cudaDevices : Nat) (w : World Key) :
    (configureIyokanStarpu cpuWorkers cudaDevices).exec w =
      if w.starpuRunning = true ∨ w.starpuInitStatus ≠ -1 then
        (.error "Tangor's StarPU worker configuration is already active", w)
      else (.ok ⟨⟩,
        { w with configuredCpuWorkers := cpuWorkers, configuredCudaDevices := cudaDevices }) := by
  by_cases hactive : w.starpuRunning = true ∨ w.starpuInitStatus ≠ -1 <;>
    simp [configureIyokanStarpu, hactive]

/-! ### The end of the runtime -/

theorem exec_unregisterAll (registry : List (Address × Handle)) (w : World Key) :
    (unregisterAll registry).exec w = (.ok ⟨⟩, { w with
      calls := w.calls ++ (registry.map Prod.snd).map .dataUnregisterNoCoherency }) := by
  induction registry generalizing w with
  | nil => simp [unregisterAll]
  | cons entry rest ih =>
      refine (exec_libraryCall_bind _ (fun _ => unregisterAll rest) w).trans ?_
      rw [ih]
      simp [World.call]

/-- The globals after `cleanupIyokanCufhepp`. -/
def World.cleanupCufhepp (w : World Key) : World Key :=
  if w.cufheppInitialized then { w.call .cufheCleanUp with cufheppInitialized := false } else w

theorem exec_cleanupIyokanCufhepp (w : World Key) :
    cleanupIyokanCufhepp.exec w = (.ok ⟨⟩, w.cleanupCufhepp) := by
  cases hinit : w.cufheppInitialized <;>
    simp [cleanupIyokanCufhepp, World.cleanupCufhepp, hinit]

/-- The handles of both registries. -/
def World.handles (w : World Key) : List Handle :=
  w.persistentHandles.map Prod.snd ++ w.persistentVariableHandles.map Prod.snd

/-- The globals after all handles have been given back. -/
def World.unregister (w : World Key) : World Key :=
  { w.call .taskWaitForAll with
    calls := (w.call .taskWaitForAll).calls ++ w.handles.map .dataUnregisterNoCoherency
    persistentHandles := []
    persistentVariableHandles := [] }

/-- The globals after a shutdown. -/
def World.shutdown (w : World Key) (useCufhepp : Bool) : World Key :=
  let w' := if useCufhepp then w.unregister.cleanupCufhepp else w.unregister
  { { w' with currentEvalKey := none }.call .starpuShutdown with starpuRunning := false }

theorem exec_shutdownIyokanStarpu (useCufhepp : Bool) (w : World Key) :
    (shutdownIyokanStarpu useCufhepp).exec w =
      (.ok ⟨⟩, if w.starpuRunning then w.shutdown useCufhepp else w) := by
  cases hrun : w.starpuRunning with
  | false => simp [shutdownIyokanStarpu, hrun]
  | true =>
      cases useCufhepp <;>
        simp [shutdownIyokanStarpu, hrun, exec_bind, exec_unregisterAll,
          exec_cleanupIyokanCufhepp, World.shutdown, World.unregister, World.handles, World.call]

/-- A shutdown does nothing where StarPU is down. -/
theorem eq_of_shutdown {useCufhepp : Bool} {w w' : World Key}
    (hexec : (shutdownIyokanStarpu useCufhepp).exec w = (.ok ⟨⟩, w')) :
    w' = if w.starpuRunning = true then w.shutdown useCufhepp else w := by
  rw [exec_shutdownIyokanStarpu] at hexec
  exact (Prod.mk.inj hexec).2.symm

/-- A shutdown that finds StarPU running waits for all tasks. -/
theorem waits_of_shutdown {useCufhepp : Bool} {w w' : World Key}
    (hexec : (shutdownIyokanStarpu useCufhepp).exec w = (.ok ⟨⟩, w'))
    (hrunning : w.starpuRunning = true) : .taskWaitForAll ∈ w'.calls.drop w.calls.length := by
  rw [eq_of_shutdown hexec, if_pos hrunning]
  have hcalls : (w.shutdown useCufhepp).calls = w.calls ++ .taskWaitForAll ::
      (w.handles.map .dataUnregisterNoCoherency ++
        if useCufhepp ∧ w.cufheppInitialized then [.cufheCleanUp, .starpuShutdown]
        else [.starpuShutdown]) := by
    cases useCufhepp <;> cases hcufhepp : w.cufheppInitialized <;>
      simp [World.shutdown, World.unregister, World.cleanupCufhepp, World.call, hcufhepp]
  rw [hcalls, List.drop_left]
  exact List.mem_cons_self

/-! ### The registries -/

/-- The globals after the registration of a new handle. -/
def World.register (w : World Key) (place : Place) (register : Handle → LibraryCall Key) :
    World Key :=
  { (w.call (register w.nextHandle)).emplace w.nextHandle place with
    nextHandle := w.nextHandle + 1 }

theorem find_emplace (w : World Key) (handle : Handle) (place place' : Place) :
    (w.emplace handle place).find place' = if place' = place then some handle
      else w.find place' := by
  rcases place with ⟨_ | _, address⟩ <;> rcases place' with ⟨_ | _, address'⟩ <;>
    by_cases h : address' = address <;>
      simp [World.emplace, World.find, List.lookup_cons, h, beq_eq_false_iff_ne.mpr]

theorem find_register (w : World Key) (place place' : Place)
    (register : Handle → LibraryCall Key) :
    (w.register place register).find place' = if place' = place then some w.nextHandle
      else w.find place' := find_emplace (w.call (register w.nextHandle)) w.nextHandle place place'

theorem find_mem_handles {w : World Key} {place : Place} {handle : Handle}
    (h : w.find place = some handle) : handle ∈ w.handles := by
  rcases place with ⟨_ | _, address⟩ <;> obtain ⟨l, l', hl, -⟩ := List.lookup_eq_some_iff.mp h <;>
    simp [World.handles, hl]

theorem exec_findOrRegister (place : Place) (register : Handle → LibraryCall Key)
    (w : World Key) :
    (findOrRegister place register).exec w = match w.find place with
      | some handle => (.ok handle, w)
      | none => (.ok w.nextHandle, w.register place register) := by
  cases h : w.find place <;> simp [findOrRegister, h]
  rfl

/-- The call that registers an operand. -/
def Access.registerCall (access : Access) (handle : Handle) : LibraryCall Key :=
  match access.type with
  | .tlwe => .vectorDataRegister handle access.address
  | type => .variableDataRegister handle access.address type

theorem handleFor_eq (access : Access) :
    (handleFor access : Backend Key Handle)
      = findOrRegister access.place access.registerCall := by
  rcases access with ⟨mode, _ | _ | _, address⟩ <;> rfl

theorem exec_handleFor (access : Access) (w : World Key) :
    (handleFor access).exec w = match w.find access.place with
      | some handle => (.ok handle, w)
      | none => (.ok w.nextHandle, w.register access.place access.registerCall) := by
  rw [handleFor_eq, exec_findOrRegister]

/-! ### Tasks -/

/-- The call that submits a task over the handles. -/
def Submission.insertCall (submission : Submission) (handles : List Handle) (status : Int) :
    LibraryCall Key :=
  .taskInsert submission.codelet ((submission.accesses.map Access.mode).zip handles) status

/-- The globals after a task has been accepted. -/
def World.addTask (w : World Key) (output : Handle) : World Key :=
  { w with states := w.states ++ [{ output := output }] }

theorem exec_insertTask (answers : Answers) (submission : Submission) (handles : List Handle)
    (w : World Key) :
    (insertTask answers submission handles).exec w =
      let w' := w.call (submission.insertCall handles answers.insert)
      if answers.insert = 0 then (.ok w.states.length, w'.addTask (handles.headD 0))
      else (.error submission.failure, w') := by
  simp [insertTask]
  split_ifs <;> rfl

/-- The globals after the callback of a task. -/
def World.complete (w : World Key) (task : IyokanStarpuTask) : World Key :=
  { w with states := w.states.modify task fun s => { s with finished := true } }

@[simp] theorem exec_taskCompleted (task : IyokanStarpuTask) (w : World Key) :
    (taskCompleted task).exec w = (.ok ⟨⟩, w.complete task) := rfl

/-- The globals after StarPU could not hand out the output of a task. -/
def World.fail (w : World Key) (task : IyokanStarpuTask) (error : Int) : World Key :=
  { w with states := w.states.modify task fun s => { s with error := error } }

theorem exec_synchronizeOutput_none {w : World Key} (answers : Answers)
    {task : IyokanStarpuTask} (h : w.states[task]? = none) :
    (synchronizeOutput answers task).exec w = (.ok ⟨⟩, w) := by
  simp [synchronizeOutput, h]

theorem exec_synchronizeOutput_some {w : World Key} (answers : Answers)
    {task : IyokanStarpuTask} {state : TaskState} (h : w.states[task]? = some state) :
    (synchronizeOutput answers task).exec w =
      if state.error = 0 then
        let w' := w.call (.dataAcquire state.output .R)
        if answers.acquire = 0 then (.ok ⟨⟩, w'.call (.dataRelease state.output))
        else (.error "Tangor could not synchronize a StarPU output",
          w'.fail task answers.acquire)
      else (.error "Tangor could not synchronize a StarPU output", w) := by
  simp [synchronizeOutput, h]
  split_ifs <;> rfl

/-! ### Host writes -/

theorem exec_acquireForWrite (answers : Answers) (failure : String) (handle : Handle)
    (w : World Key) :
    (acquireForWrite answers failure (some handle)).exec w =
      if answers.acquire = 0 then
        (.ok ⟨⟩, (w.call (.dataAcquire handle .W)).call (.dataRelease handle))
      else (.error failure, w.call (.dataAcquire handle .W)) := by
  by_cases hacquire : answers.acquire = 0 <;> simp [acquireForWrite, hacquire]

end Tangor.Iyokan
