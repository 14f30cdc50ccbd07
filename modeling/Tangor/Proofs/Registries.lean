/-
One handle for each object, and one release for each handle.

A registry is a log: `registered` reads off the calls to StarPU which object got which
handle.  Between the start of StarPU and its shutdown the two maps and the log say the
same, nothing is registered twice and nothing is given back.  `World.Registries` is this
invariant; whatever a thread does between two locks either leaves it alone or enters one
object that is not there.

The rest is about who may register.  A thread in a `submit` function has got past
`ensureStarpuRuntime`, so StarPU is up (`System.Up`), and a shutdown that finds StarPU
down has nothing to give back.
-/
import Tangor.Proofs.Threads
import Tangor.Proofs.Globals

namespace Tangor.Iyokan

open Throwing TaskGraph

variable {Tid Key N V : Type}

/-! ### The log -/

/-- The object a call registers, and its handle. -/
def LibraryCall.registration : LibraryCall Key → Option (Place × Handle)
  | .vectorDataRegister handle data => some ((.persistentHandles, data), handle)
  | .variableDataRegister handle value _ => some ((.persistentVariableHandles, value), handle)
  | _ => none

/-- The handle a call gives back. -/
def LibraryCall.unregistration : LibraryCall Key → Option Handle
  | .dataUnregisterNoCoherency handle => some handle
  | _ => none

def World.registered (w : World Key) : List (Place × Handle) :=
  w.calls.filterMap LibraryCall.registration

def World.unregistered (w : World Key) : List Handle :=
  w.calls.filterMap LibraryCall.unregistration

/-- The registries and the log agree, and no handle has been given back. -/
structure World.Registries (w : World Key) : Prop where
  log : ∀ place handle, (place, handle) ∈ w.registered ↔ w.find place = some handle
  places : (w.registered.map Prod.fst).Nodup
  handles : w.handles.Perm (w.registered.map Prod.snd)
  bound : ∀ handle ∈ w.registered.map Prod.snd, handle < w.nextHandle
  nodup : (w.registered.map Prod.snd).Nodup
  kept : w.unregistered = []

/-- Parts of the backend that leave the registries and their log alone. -/
structure World.KeepsRegistries (w w' : World Key) : Prop where
  persistentHandles : w'.persistentHandles = w.persistentHandles
  persistentVariableHandles : w'.persistentVariableHandles = w.persistentVariableHandles
  nextHandle : w'.nextHandle = w.nextHandle
  calls : ∃ calls, w'.calls = w.calls ++ calls ∧
    ∀ call ∈ calls, call.registration = none ∧ call.unregistration = none

namespace World.KeepsRegistries

variable {w w' : World Key}

theorem find (h : w.KeepsRegistries w') : w'.find = w.find :=
  World.find_congr h.persistentHandles h.persistentVariableHandles

theorem registered (h : w.KeepsRegistries w') : w'.registered = w.registered := by
  obtain ⟨calls, hcalls, hnone⟩ := h.calls
  unfold World.registered
  rw [hcalls, List.filterMap_append,
    List.filterMap_eq_nil_iff.mpr fun call hcall => (hnone call hcall).1, List.append_nil]

theorem unregistered (h : w.KeepsRegistries w') : w'.unregistered = w.unregistered := by
  obtain ⟨calls, hcalls, hnone⟩ := h.calls
  unfold World.unregistered
  rw [hcalls, List.filterMap_append,
    List.filterMap_eq_nil_iff.mpr fun call hcall => (hnone call hcall).2, List.append_nil]

end World.KeepsRegistries

theorem keepsRegistries_refl (w : World Key) : w.KeepsRegistries w :=
  ⟨rfl, rfl, rfl, [], by simp, by simp⟩

theorem keepsRegistries_call (w : World Key) {call : LibraryCall Key}
    (hregister : call.registration = none) (hunregister : call.unregistration = none) :
    w.KeepsRegistries (w.call call) :=
  ⟨rfl, rfl, rfl, [call], rfl, by simp [hregister, hunregister]⟩

theorem keepsRegistries_configure {cpuWorkers cudaDevices : Nat} {w w' : World Key}
    {r : Except String PUnit}
    (h : (configureIyokanStarpu cpuWorkers cudaDevices).exec w = (r, w')) :
    w.KeepsRegistries w' := by
  by_cases hactive : w.starpuRunning = true ∨ w.starpuInitStatus ≠ -1
  · simp [configureIyokanStarpu, hactive] at h
    rw [← h.2]
    exact keepsRegistries_refl w
  · simp [configureIyokanStarpu, hactive] at h
    rw [← h.2]
    exact ⟨rfl, rfl, rfl, [], by simp, by simp⟩

theorem keepsRegistries_ensureStarpuRuntime {answers : Answers} {w w' : World Key}
    {r : Except String PUnit} (h : (ensureStarpuRuntime answers).exec w = (r, w')) :
    w.KeepsRegistries w' := by
  rw [exec_ensureStarpuRuntime] at h
  obtain ⟨-, rfl⟩ := Prod.mk.injEq .. ▸ h
  cases w.starpuInitOnce with
  | true => exact keepsRegistries_refl w
  | false =>
      refine ⟨rfl, rfl, rfl, _, rfl, ?_⟩
      by_cases hinit : answers.init = 0 <;>
        simp [hinit, LibraryCall.registration, LibraryCall.unregistration]

theorem keepsRegistries_bindEvalKey [DecidableEq Key] {useCufhepp : Bool} {answers : Answers}
    {key : Key} {w w' : World Key} {r : Except String PUnit}
    (h : (bindEvalKey useCufhepp answers key).exec w = (r, w')) : w.KeepsRegistries w' := by
  by_cases haccepts : w.Accepts key
  · rw [exec_bindEvalKey_accepted useCufhepp answers haccepts] at h
    obtain ⟨-, rfl⟩ := Prod.mk.injEq .. ▸ h
    rcases bind_cases w useCufhepp answers key with h | h | ⟨-, h⟩ <;> rw [h]
    · exact ⟨rfl, rfl, rfl, [], by simp, by simp⟩
    · exact ⟨rfl, rfl, rfl, [.cudaWorkerGetCount], rfl,
        by simp [LibraryCall.registration, LibraryCall.unregistration]⟩
    · exact ⟨rfl, rfl, rfl, [.cudaWorkerGetCount, .cufheInitialize key,
        .atexit .cleanupIyokanCufhepp], by simp [World.call],
        by simp [LibraryCall.registration, LibraryCall.unregistration]⟩
  · rw [exec_bindEvalKey_rejected useCufhepp answers haccepts] at h
    obtain ⟨-, rfl⟩ := Prod.mk.injEq .. ▸ h
    exact keepsRegistries_refl w

theorem keepsRegistries_insertTask {answers : Answers} {submission : Submission}
    {handles : List Handle} {w w' : World Key} {r : Except String IyokanStarpuTask}
    (h : (insertTask answers submission handles).exec w = (r, w')) : w.KeepsRegistries w' := by
  have hcall : w.KeepsRegistries (w.call (submission.insertCall handles answers.insert)) :=
    keepsRegistries_call w rfl rfl
  rw [exec_insertTask] at h
  split_ifs at h <;> obtain ⟨-, rfl⟩ := Prod.mk.injEq .. ▸ h
  · exact ⟨rfl, rfl, rfl, hcall.calls⟩
  · exact hcall

/-! ### The registries keep their invariant -/

theorem World.Registries.keeps {w w' : World Key} (hw : w.Registries) (h : w.KeepsRegistries w') :
    w'.Registries where
  log := by
    rw [h.registered, h.find]
    exact hw.log
  places := by
    rw [h.registered]
    exact hw.places
  handles := by
    rw [h.registered]
    simpa only [World.handles, h.persistentHandles, h.persistentVariableHandles] using hw.handles
  bound := by
    rw [h.registered, h.nextHandle]
    exact hw.bound
  nodup := by
    rw [h.registered]
    exact hw.nodup
  kept := h.unregistered.trans hw.kept

theorem registered_register (w : World Key) (access : Access) :
    (w.register access.place access.registerCall).registered
      = w.registered ++ [(access.place, w.nextHandle)] := by
  unfold World.registered
  rw [calls_register, List.filterMap_append]
  rcases access with ⟨mode, _ | _ | _, address⟩ <;> rfl

theorem unregistered_register (w : World Key) (access : Access) :
    (w.register access.place access.registerCall).unregistered = w.unregistered := by
  unfold World.unregistered
  rw [calls_register, List.filterMap_append]
  rcases access with ⟨mode, _ | _ | _, address⟩ <;> exact List.append_nil _

/-- An object that is not in its registry gets the next handle. -/
theorem World.Registries.register {w : World Key} (hw : w.Registries) {access : Access}
    (hfree : w.find access.place = none) :
    (w.register access.place access.registerCall).Registries where
  log := by
    intro place handle
    rw [registered_register, List.mem_append, List.mem_singleton, find_register, hw.log,
      Prod.mk.injEq]
    by_cases hplace : place = access.place
    · subst hplace
      rw [hfree, if_pos rfl, Option.some_inj]
      simp [eq_comm]
    · simp [hplace]
  places := by
    rw [registered_register, List.map_append]
    refine List.nodup_append'.mpr ⟨hw.places, List.nodup_singleton _, ?_⟩
    intro place hold hnew
    obtain rfl : place = access.place := List.mem_singleton.mp hnew
    obtain ⟨⟨_, handle⟩, hmem, rfl⟩ := List.mem_map.mp hold
    exact absurd (hfree.symm.trans ((hw.log access.place handle).mp hmem)) (by simp)
  handles := by
    rw [registered_register, List.map_append]
    exact (handles_emplace _ _ _).trans ((hw.handles.cons _).trans
      (List.perm_append_singleton _ _).symm)
  bound := by
    intro handle hmem
    rw [registered_register, List.map_append] at hmem
    show handle < w.nextHandle + 1
    rcases List.mem_append.mp hmem with hold | hnew
    · exact Nat.lt_succ_of_lt (hw.bound handle hold)
    · rw [List.mem_singleton.mp hnew]
      exact Nat.lt_succ_self _
  nodup := by
    rw [registered_register, List.map_append]
    refine List.nodup_append'.mpr ⟨hw.nodup, List.nodup_singleton _, ?_⟩
    intro handle hold hnew
    rw [List.mem_singleton.mp hnew] at hold
    exact absurd (hw.bound _ hold) (Nat.lt_irrefl _)
  kept := (unregistered_register w access).trans hw.kept

/-- A shutdown waits, gives back what is registered, and unregisters nothing else. -/
theorem World.Registries.shutdown {w : World Key} (hw : w.Registries) (useCufhepp : Bool) :
    (w.shutdown useCufhepp).unregistered.Perm (w.registered.map Prod.snd) := by
  have hunregister : w.unregister.unregistered = w.handles := by
    have hkept := hw.kept
    unfold World.unregistered at hkept ⊢
    simp only [World.unregister, World.call, List.filterMap_append, hkept]
    simp [LibraryCall.unregistration, Function.comp_def, List.filterMap_map]
  have hsame : (w.shutdown useCufhepp).unregistered = w.unregister.unregistered := by
    unfold World.unregistered
    rcases calls_shutdown w useCufhepp with h | h <;> rw [h, List.filterMap_append] <;>
      exact List.append_nil _
  rw [hsame, hunregister]
  exact hw.handles

/-! ### The status of the runtime -/

/-- The status of the runtime is what it was. -/
def World.SameStatus (w w' : World Key) : Prop :=
  w'.starpuInitStatus = w.starpuInitStatus ∧ w'.starpuRunning = w.starpuRunning

theorem sameStatus_configure {cpuWorkers cudaDevices : Nat} {w w' : World Key}
    {r : Except String PUnit}
    (h : (configureIyokanStarpu cpuWorkers cudaDevices).exec w = (r, w')) : w.SameStatus w' := by
  by_cases hactive : w.starpuRunning = true ∨ w.starpuInitStatus ≠ -1
  · simp [configureIyokanStarpu, hactive] at h
    rw [← h.2]
    exact ⟨rfl, rfl⟩
  · simp [configureIyokanStarpu, hactive] at h
    rw [← h.2]
    exact ⟨rfl, rfl⟩

theorem sameStatus_bindEvalKey [DecidableEq Key] {useCufhepp : Bool} {answers : Answers}
    {key : Key} {w w' : World Key} {r : Except String PUnit}
    (h : (bindEvalKey useCufhepp answers key).exec w = (r, w')) : w.SameStatus w' := by
  by_cases haccepts : w.Accepts key
  · rw [exec_bindEvalKey_accepted useCufhepp answers haccepts] at h
    obtain ⟨-, rfl⟩ := Prod.mk.injEq .. ▸ h
    rcases bind_cases w useCufhepp answers key with h | h | ⟨-, h⟩ <;> rw [h] <;> exact ⟨rfl, rfl⟩
  · rw [exec_bindEvalKey_rejected useCufhepp answers haccepts] at h
    obtain ⟨-, rfl⟩ := Prod.mk.injEq .. ▸ h
    exact ⟨rfl, rfl⟩

theorem sameStatus_handleFor {access : Access} {w w' : World Key} {r : Except String Handle}
    (h : (handleFor access).exec w = (r, w')) : w.SameStatus w' := by
  rw [exec_handleFor] at h
  split at h <;> obtain ⟨-, rfl⟩ := Prod.mk.injEq .. ▸ h
  · exact ⟨rfl, rfl⟩
  · rcases access with ⟨mode, _ | _ | _, address⟩ <;> exact ⟨rfl, rfl⟩

theorem sameStatus_insertTask {answers : Answers} {submission : Submission}
    {handles : List Handle} {w w' : World Key} {r : Except String IyokanStarpuTask}
    (h : (insertTask answers submission handles).exec w = (r, w')) : w.SameStatus w' := by
  rw [exec_insertTask] at h
  split_ifs at h <;> obtain ⟨-, rfl⟩ := Prod.mk.injEq .. ▸ h <;> exact ⟨rfl, rfl⟩

/-! ### The steps -/

/-- A gate call or a prepare call that has got past `ensureStarpuRuntime`. -/
def Pc.Uses : Pc Key → Prop
  | .binding _ _ | .submitting _ _ => True
  | _ => False

/-- Before a shutdown: what has been let in, registered or submitted found StarPU up. -/
structure System.Up (s : System Tid Key N V) : Prop where
  init : s.world.starpuInitStatus = 0 → s.world.starpuRunning = true
  pcs : ∀ t, (s.threads t).pc.Uses → s.world.starpuRunning = true
  registered : s.world.registered ≠ [] → s.world.starpuRunning = true
  submitted : s.submitted ≠ [] → s.world.starpuRunning = true

/-- What is registered was so before, or somebody uses StarPU. -/
def System.Enters (s s' : System Tid Key N V) : Prop :=
  s'.world.registered ≠ [] → s.world.registered ≠ [] ∨ ∃ t, (s.threads t).pc.Uses

theorem System.Up.same {s s' : System Tid Key N V} (hs : s.Up) (hw : s.world.SameStatus s'.world)
    (henters : s.Enters s') (hpcs : ∀ t, (s'.threads t).pc.Uses → ∃ u, (s.threads u).pc.Uses)
    (hsubmitted : s'.submitted = s.submitted) : s'.Up where
  init := by
    rw [hw.1, hw.2]
    exact hs.init
  pcs := by
    intro t ht
    obtain ⟨u, hu⟩ := hpcs t ht
    exact hw.2.trans (hs.pcs u hu)
  registered := by
    intro hregistered
    rw [hw.2]
    rcases henters hregistered with hold | ⟨t, ht⟩
    · exact hs.registered hold
    · exact hs.pcs t ht
  submitted := by
    rw [hsubmitted, hw.2]
    exact hs.submitted

/-- What holds as long as StarPU has not been shut down. -/
structure System.Registered (useCufhepp : Bool) (s : System Tid Key N V) : Prop where
  keys : s.Keys useCufhepp
  linked : s.Linked
  up : s.Up
  registries : s.world.Registries

/-- What a thread that is inside a call has been given for an object. -/
def System.Receives (s : System Tid Key N V) (t : Tid) (place : Place) (handle : Handle) : Prop :=
  match (s.threads t).pc with
  | .submitting call handles => ∃ (i : Nat) (access : Access),
      call.submission.accesses[i]? = some access ∧ access.place = place ∧
        handles[i]? = some handle
  | .marking place' handle' _ => place' = place ∧ handle' = handle
  | _ => False

/-- It is the handle of the registry. -/
theorem System.Registered.receives {s : System Tid Key N V} (hs : s.Registered useCufhepp)
    {t : Tid} {place : Place} {handle : Handle} (h : s.Receives t place handle) :
    (place, handle) ∈ s.world.registered := by
  rw [hs.registries.log]
  have hlinked := hs.linked.pcs t
  unfold System.Receives at h
  cases hpc : (s.threads t).pc with
  | submitting call handles =>
      rw [hpc] at h hlinked
      obtain ⟨i, access, haccess, rfl, hhandle⟩ := h
      have htake : (call.submission.accesses.take handles.length)[i]? = some access := by
        rw [List.getElem?_take_of_lt (List.getElem?_eq_some_iff.mp hhandle).1, haccess]
      obtain ⟨_, hhandle', hfind⟩ := Fallible.forall₂_getElem?_left hlinked htake
      rwa [Option.some.inj (hhandle'.symm.trans hhandle)] at hfind
  | marking place' handle' count =>
      rw [hpc] at h hlinked
      obtain ⟨rfl, rfl⟩ := h
      exact hlinked
  | _ =>
      rw [hpc] at h
      exact h.elim

section Threads

variable [DecidableEq Tid]

/-- Who uses StarPU after one thread has gone on. -/
theorem uses_update {s : System Tid Key N V} {t u : Tid} {thread : Thread Key}
    (hthread : thread.pc.Uses → (s.threads t).pc.Uses)
    (hu : (Function.update s.threads t thread u).pc.Uses) : ∃ u, (s.threads u).pc.Uses := by
  by_cases hut : u = t
  · subst hut
    rw [Function.update_self] at hu
    exact ⟨u, hthread hu⟩
  · rw [Function.update_of_ne hut] at hu
    exact ⟨u, hu⟩

variable [DecidableEq N] [Inhabited V] {tfhe : TFHE Key V} {main : N}

/-- `ensureStarpuRuntime` lets in who finds StarPU up. -/
theorem System.Up.ensured {s : System Tid Key N V} (hs : s.Up) {t : Tid} {answers : Answers}
    {r : Except String PUnit} {w : World Key} {pc : Pc Key}
    (hexec : (ensureStarpuRuntime answers).exec s.world = (r, w))
    (hpc : pc.Uses → r = .ok ⟨⟩) : ((s.ran tfhe main w).goto t pc).Up := by
  have hregistered := (keepsRegistries_ensureStarpuRuntime hexec).registered
  rw [exec_ensureStarpuRuntime] at hexec
  obtain ⟨hr, rfl⟩ := Prod.mk.injEq .. ▸ hexec
  set w := if s.world.starpuInitOnce = true then s.world else s.world.afterInit answers with hw
  have hstatus : w.starpuInitStatus = 0 → w.starpuRunning = true := by
    rw [hw]
    split_ifs
    · exact hs.init
    · intro hinit
      simp [World.afterInit, show answers.init = 0 from hinit]
  have hrunning : s.world.starpuRunning = true → w.starpuRunning = true := by
    intro hrun
    rw [hw]
    split_ifs
    · exact hrun
    · simp [World.afterInit, hrun]
  refine ⟨hstatus, fun u hu => ?_, fun hmem => hrunning (hs.registered ?_),
    fun hsubmitted => hrunning (hs.submitted hsubmitted)⟩
  · rw [threads_goto] at hu
    split_ifs at hu
    · refine hstatus ?_
      by_contra hne
      rw [hpc hu, if_neg hne] at hr
      exact absurd hr (by simp)
    · exact hrunning (hs.pcs u hu)
  · exact hregistered ▸ hmem

variable [DecidableEq Key] {useCufhepp : Bool}

/-- **A step leaves the registries alone, or a thread enters an operand of its call that is
not there.** -/
theorem Step.world {s s' : System Tid Key N V} (h : Step tfhe main useCufhepp s s') :
    s.world.KeepsRegistries s'.world ∨ ∃ (t : Tid) (call : GateCall Key) (handles : List Handle)
      (access : Access), (s.threads t).pc = .submitting call handles ∧
      access ∈ call.submission.accesses ∧ s.world.find access.place = none ∧
      s'.world = s.world.register access.place access.registerCall := by
  have hask : ∀ (t : Tid) (task : IyokanStarpuTask) (state : TaskState),
      s.world.KeepsRegistries (s.ask t task state).world := by
    intro t task state
    unfold System.ask
    split_ifs
    · exact keepsRegistries_call s.world rfl rfl
    · exact keepsRegistries_refl s.world
  cases h with
  | configure t cpuWorkers cudaDevices r w hpc hlock hexec =>
      exact Or.inl (keepsRegistries_configure hexec)
  | ensure t key next answers r w hpc hexec =>
      exact Or.inl (keepsRegistries_ensureStarpuRuntime hexec)
  | bind t key next answers r w hpc hlock hexec =>
      exact Or.inl (keepsRegistries_bindEvalKey hexec)
  | handleFor t call handles access handle w hpc haccess hexec =>
      rw [exec_handleFor] at hexec
      cases hfind : s.world.find access.place with
      | some found =>
          rw [hfind] at hexec
          obtain ⟨-, rfl⟩ := Prod.mk.injEq .. ▸ hexec
          exact Or.inl (keepsRegistries_refl s.world)
      | none =>
          rw [hfind] at hexec
          obtain ⟨-, rfl⟩ := Prod.mk.injEq .. ▸ hexec
          exact Or.inr ⟨t, call, handles, access, hpc, List.mem_of_getElem? haccess, hfind, rfl⟩
  | insert t call handles answers task w hpc hall hclean hexec =>
      exact Or.inl (keepsRegistries_insertTask hexec)
  | refuse t call handles answers text w hpc hall hexec =>
      exact Or.inl (keepsRegistries_insertTask hexec)
  | completed task w hfinished hexec =>
      obtain ⟨-, rfl⟩ := Prod.mk.injEq .. ▸ hexec
      exact Or.inl ⟨rfl, rfl, rfl, (keepsRegistries_refl s.world).calls⟩
  | waited t task state => exact Or.inl (hask t task state)
  | synchronizeOutput t task state => exact Or.inl (hask t task state)
  | failed =>
      exact Or.inl ⟨rfl, rfl, rfl, (keepsRegistries_refl s.world).calls⟩
  | acquired | mark | marked => exact Or.inl (keepsRegistries_call s.world rfl rfl)
  | prepare | call | beginCapture | endCapture | synchronizeCapture | hostWrite | unmarked
    | markUnregistered | work => exact Or.inl (keepsRegistries_refl s.world)

theorem Step.enters {s s' : System Tid Key N V}
    (h : Step tfhe main useCufhepp s s') : s.Enters s' := by
  intro hregistered
  rcases h.world with hkeeps | ⟨t, call, handles, access, hpc, -⟩
  · exact Or.inl (hkeeps.registered ▸ hregistered)
  · exact Or.inr ⟨t, by rw [hpc]; trivial⟩

theorem System.Up.step {s s' : System Tid Key N V} (hs : s.Up)
    (h : Step tfhe main useCufhepp s s') : s'.Up := by
  have henters := h.enters
  have hsame : s.world.SameStatus s.world := ⟨rfl, rfl⟩
  have hask : ∀ (t : Tid) (task : IyokanStarpuTask) (state : TaskState),
      s.Enters (s.ask t task state) → (s.ask t task state).Up := by
    intro t task state henters
    by_cases herror : state.error = 0
    · rw [System.ask, if_pos herror] at henters ⊢
      exact hs.same hsame henters (fun u hu => uses_update (by simp [Pc.Uses]) hu) rfl
    · rw [System.ask, if_neg herror] at henters ⊢
      exact hs.same hsame henters (fun u hu => uses_update (by simp [Pc.Uses]) hu) rfl
  cases h with
  | configure t cpuWorkers cudaDevices r w hpc hlock hexec =>
      exact hs.same (sameStatus_configure hexec) henters (fun u hu => ⟨u, hu⟩) rfl
  | ensure t key next answers r w hpc hexec =>
      refine hs.ensured hexec fun huses => ?_
      rcases r with text | ⟨⟩
      · exact absurd huses (by simp [Pc.Uses])
      · rfl
  | bind t key next answers r w hpc hlock hexec =>
      exact hs.same (sameStatus_bindEvalKey hexec) henters
        (fun u hu => uses_update (fun _ => by rw [hpc]; trivial) hu) rfl
  | handleFor t call handles access handle w hpc haccess hexec =>
      exact hs.same (sameStatus_handleFor hexec) henters
        (fun u hu => uses_update (fun _ => by rw [hpc]; trivial) hu) rfl
  | insert t call handles answers task w hpc hall hclean hexec =>
      have hrunning := (sameStatus_insertTask hexec).2.trans (hs.pcs t (by rw [hpc]; trivial))
      exact ⟨fun _ => hrunning, fun _ _ => hrunning, fun _ => hrunning, fun _ => hrunning⟩
  | refuse t call handles answers text w hpc hall hexec =>
      exact hs.same (sameStatus_insertTask hexec) henters
        (fun u hu => uses_update (by simp [Pc.Uses]) hu) rfl
  | completed task w hfinished hexec =>
      obtain ⟨-, rfl⟩ := Prod.mk.injEq .. ▸ hexec
      exact hs.same ⟨rfl, rfl⟩ henters (fun u hu => ⟨u, hu⟩) rfl
  | waited t task state => exact hask t task state henters
  | synchronizeOutput t task state => exact hask t task state henters
  | prepare | call | acquired | failed | beginCapture | endCapture | synchronizeCapture | mark
    | marked | unmarked =>
      exact hs.same hsame henters (fun u hu => uses_update (by simp [Pc.Uses]) hu) rfl
  | hostWrite | markUnregistered | work =>
      exact hs.same hsame henters (fun u hu => ⟨u, hu⟩) rfl

/-! ### The life of the registries -/

/-- A step moves one thread at most, and none that is shutting StarPU down. -/
theorem Step.moves {s s' : System Tid Key N V} (h : Step tfhe main useCufhepp s s') :
    s'.threads = s.threads ∨
      ∃ t, (s.threads t).pc ≠ .shuttingDown ∧ ∀ u, u ≠ t → s'.threads u = s.threads u := by
  have hmove : ∀ {s₁ : System Tid Key N V} {t : Tid} {pc : Pc Key} {thread : Thread Key},
      (s.threads t).pc = pc → pc ≠ .shuttingDown →
      s₁.threads = Function.update s.threads t thread →
      ∃ t, (s.threads t).pc ≠ .shuttingDown ∧ ∀ u, u ≠ t → s₁.threads u = s.threads u := by
    rintro s₁ t _ thread rfl hpc hthreads
    exact ⟨t, hpc, fun u hu => by rw [hthreads, Function.update_of_ne hu]⟩
  have hask : ∀ {t : Tid} {pc : Pc Key} (task : IyokanStarpuTask) (state : TaskState),
      (s.threads t).pc = pc → pc ≠ .shuttingDown → ∃ v, (s.threads v).pc ≠ .shuttingDown ∧
        ∀ u, u ≠ v → (s.ask t task state).threads u = s.threads u := by
    intro t pc task state ht hpc
    unfold System.ask
    split_ifs <;> exact hmove ht hpc rfl
  cases h with
  | configure | completed | hostWrite | markUnregistered | work => exact Or.inl rfl
  | prepare t _ hpc | call t _ hpc | ensure t _ _ _ _ _ hpc | bind t _ _ _ _ _ hpc
    | handleFor t _ _ _ _ _ hpc | insert t _ _ _ _ _ hpc | refuse t _ _ _ _ _ hpc
    | acquired t _ _ _ hpc | failed t _ _ _ hpc | beginCapture t _ hpc | endCapture t _ _ hpc
    | synchronizeCapture t _ hpc | mark t _ _ hpc | marked t _ _ _ hpc | unmarked t _ _ _ hpc =>
      exact Or.inr (hmove hpc (by simp) rfl)
  | waited t task state hpc => exact Or.inr (hask task state hpc (by simp))
  | synchronizeOutput t task state hpc => exact Or.inr (hask task state hpc (by simp))

omit [DecidableEq Tid] [DecidableEq N] [DecidableEq Key] in
theorem registered_start (main : N) (memory : Place → V) :
    (System.start main memory : System Tid Key N V).Registered useCufhepp where
  keys := keys_start useCufhepp main memory
  linked := ⟨.nil, fun i state hstate => absurd hstate (by simp [System.start]),
    fun _ => trivial⟩
  up := ⟨fun h => absurd h (by simp [System.start]), fun _ h => h.elim, fun h => absurd rfl h,
    fun h => absurd rfl h⟩
  registries := by
    refine ⟨?_, .nil, .nil, ?_, .nil, rfl⟩
    · rintro ⟨_ | _, address⟩ handle <;> simp [System.start, World.registered, World.find]
    · simp [System.start, World.registered]

theorem System.Registered.step {s s' : System Tid Key N V} (hs : s.Registered useCufhepp)
    (h : Step tfhe main useCufhepp s s') : s'.Registered useCufhepp where
  keys := hs.keys.step h
  linked := (h.objects hs.keys hs.linked).2
  up := hs.up.step h
  registries := by
    rcases h.world with hkeeps | ⟨-, -, -, access, -, -, hfree, hworld⟩
    · exact hs.registries.keeps hkeeps
    · rw [hworld]
      exact hs.registries.register hfree

theorem LifeStep.calls {s s' : System Tid Key N V} (h : LifeStep tfhe main useCufhepp s s') :
    s.world.calls <+: s'.world.calls := by
  cases h with
  | step _ hstep =>
      rcases hstep.world with hkeeps | ⟨-, -, -, access, -, -, -, hworld⟩
      · obtain ⟨calls, hcalls, -⟩ := hkeeps.calls
        exact ⟨calls, hcalls.symm⟩
      · rw [hworld, calls_register]
        exact List.prefix_append _ _
  | shutdown => exact List.prefix_refl _
  | shutDown t w hpc hexec hwait =>
      show s.world.calls <+: w.calls
      rw [eq_of_shutdown hexec]
      split_ifs
      · have hunregister : s.world.calls <+: s.world.unregister.calls :=
          (List.prefix_append _ _).trans (List.prefix_append _ _)
        rcases calls_shutdown s.world useCufhepp with h | h <;> rw [h] <;>
          exact hunregister.trans (List.prefix_append _ _)
      · exact List.prefix_refl _

omit [DecidableEq Key] in
/-- A shutdown that has not ended StarPU has found it down. -/
theorem eq_of_shutdown_up {w w' : World Key}
    (hexec : (shutdownIyokanStarpu useCufhepp).exec w = (.ok ⟨⟩, w'))
    (hup : .starpuShutdown ∉ w'.calls) : w' = w ∧ w.starpuRunning = false := by
  rw [eq_of_shutdown hexec] at hup ⊢
  split_ifs at hup ⊢ with hrunning
  · refine absurd ?_ hup
    rcases calls_shutdown w useCufhepp with h | h <;> rw [h] <;> simp
  · exact ⟨rfl, Bool.eq_false_iff.mpr hrunning⟩

theorem System.Registered.lifeStep {s s' : System Tid Key N V} (hs : s.Registered useCufhepp)
    (h : LifeStep tfhe main useCufhepp s s') (hup : .starpuShutdown ∉ s'.world.calls) :
    s'.Registered useCufhepp := by
  have hkeys := hs.keys.lifeStep h
  have hgoto : ∀ {s₀ : System Tid Key N V} {t : Tid} {pc : Pc Key}, s₀.world = s.world →
      s₀.threads = s.threads → s₀.submitted = s.submitted → s₀.runtime = s.runtime →
      ¬ pc.Uses → pc.Linked s.world.find → (s₀.goto t pc).Keys useCufhepp →
      (s₀.goto t pc).Registered useCufhepp := by
    intro s₀ t pc hworld hthreads hsubmitted hruntime hpc hlinked hkeys
    have hl : s₀.Linked := ⟨by rw [hsubmitted, hworld]; exact hs.linked.outputs,
      by rw [hworld, hruntime]; exact hs.linked.finished,
      by rw [hworld, hthreads]; exact hs.linked.pcs⟩
    have hu : (s₀.goto t pc).Up := hs.up.same (by rw [← hworld]; exact ⟨rfl, rfl⟩)
      (fun hmem => Or.inl (hworld ▸ hmem))
      (fun u hu => by
        rw [threads_goto] at hu
        split_ifs at hu
        · exact absurd hu hpc
        · exact ⟨u, hthreads ▸ hu⟩) hsubmitted
    exact ⟨hkeys, hl.goto (by rw [hworld]; exact hlinked), hu, by
      show s₀.world.Registries
      rw [hworld]
      exact hs.registries⟩
  cases h with
  | step _ hstep => exact hs.step hstep
  | shutdown t hpc hothers hlock =>
      exact hgoto rfl rfl rfl rfl (by simp [Pc.Uses]) trivial hkeys
  | shutDown t w hpc hexec hwait =>
      obtain ⟨rfl, -⟩ := eq_of_shutdown_up hexec hup
      exact hgoto rfl rfl rfl (by simp [System.ran]) (by simp [Pc.Uses]) trivial hkeys

/-- As long as StarPU is not shut down, the objects are what a step makes of them or what they
were. -/
theorem System.Registered.objects {s s' : System Tid Key N V} (hs : s.Registered useCufhepp)
    (h : LifeStep tfhe main useCufhepp s s') (hup : .starpuShutdown ∉ s'.world.calls) :
    Step tfhe main useCufhepp s s' ∨ s'.objects = s.objects := by
  cases h with
  | step _ hstep => exact Or.inl hstep
  | shutdown => exact Or.inr rfl
  | shutDown t w hpc hexec hwait =>
      obtain ⟨rfl, hdown⟩ := eq_of_shutdown_up hexec hup
      -- Nothing is registered, so the host finds what is in memory.
      have hmemory : s.hostValue main = s.memory := by
        funext place
        cases hfind : s.world.find place with
        | none => simp [System.hostValue, hfind]
        | some handle =>
            have hmem := (hs.registries.log place handle).mpr hfind
            exact absurd ((hs.up.registered (List.ne_nil_of_mem hmem)).symm.trans hdown) (by simp)
      refine Or.inr ?_
      simp [System.objects, System.ran, System.goto, hmemory]

/-- Nothing but the end of the shutdown takes a thread out of it. -/
theorem LifeStep.leaves {s s' : System Tid Key N V} (h : LifeStep tfhe main useCufhepp s s')
    {t : Tid} (hpc : (s.threads t).pc = .shuttingDown)
    (hgone : (s'.threads t).pc ≠ .shuttingDown) :
    s'.world = (if s.world.starpuRunning = true then s.world.shutdown useCufhepp else s.world) ∧
      (s.world.starpuRunning = true →
        ∀ i, i < s.runtime.tasks.length → i ∈ s.runtime.finished) := by
  cases h with
  | step _ hstep =>
      refine absurd ?_ hgone
      rcases hstep.moves with hsame | ⟨u, hu, hsame⟩
      · rw [hsame, hpc]
      · have htu : t ≠ u := by
          rintro rfl
          exact hu hpc
        rw [hsame t htu, hpc]
  | shutdown u hidle hothers hlock => exact absurd hpc (hlock t)
  | shutDown u w hu hexec hwait =>
      exact ⟨eq_of_shutdown hexec, fun hrunning => hwait (waits_of_shutdown hexec hrunning)⟩

/-- A shutdown gives back every registered handle once, with all tasks finished. -/
theorem System.Registered.release {s s' : System Tid Key N V} (hs : s.Registered useCufhepp)
    (h : LifeStep tfhe main useCufhepp s s') {t : Tid} (hpc : (s.threads t).pc = .shuttingDown)
    (hgone : (s'.threads t).pc ≠ .shuttingDown) :
    (∀ i, i < s.submitted.length → i ∈ s.runtime.finished) ∧
      s'.world.unregistered.Perm (s.world.registered.map Prod.snd) ∧
      s'.world.unregistered.Nodup ∧
      s'.world.persistentHandles = [] ∧ s'.world.persistentVariableHandles = [] := by
  obtain ⟨hworld, hall⟩ := h.leaves hpc hgone
  by_cases hrunning : s.world.starpuRunning = true
  · rw [if_pos hrunning] at hworld
    obtain ⟨-, -, -, hph, hpv, -⟩ := shutdown_frame s.world useCufhepp
    have hperm := hs.registries.shutdown useCufhepp
    rw [hworld]
    refine ⟨fun i hi => hall hrunning i (by rwa [hs.keys.length]), hperm,
      hperm.nodup_iff.mpr hs.registries.nodup, hph, hpv⟩
  · rw [if_neg hrunning] at hworld
    have hregistered : s.world.registered = [] := by
      by_contra hne
      exact hrunning (hs.up.registered hne)
    have hsubmitted : s.submitted = [] := by
      by_contra hne
      exact hrunning (hs.up.submitted hne)
    have hhandles : s.world.handles = [] := by
      have := hs.registries.handles
      rwa [hregistered, List.map_nil, List.perm_nil] at this
    obtain ⟨hph, hpv⟩ := List.append_eq_nil_iff.mp hhandles
    rw [hworld, hs.registries.kept, hregistered]
    exact ⟨fun i hi => absurd hi (by simp [hsubmitted]), .nil, .nil, List.map_eq_nil_iff.mp hph,
      List.map_eq_nil_iff.mp hpv⟩

theorem registered_run {memory : Place → V} {s : System Tid Key N V}
    (hrun : Relation.ReflTransGen (LifeStep tfhe main useCufhepp) (System.start main memory) s)
    (hup : .starpuShutdown ∉ s.world.calls) : s.Registered useCufhepp := by
  induction hrun with
  | refl => exact registered_start main memory
  | tail _ hstep ih => exact (ih fun hmem => hup (hstep.calls.subset hmem)).lifeStep hstep hup

theorem calls_run {s s' : System Tid Key N V}
    (hrun : Relation.ReflTransGen (LifeStep tfhe main useCufhepp) s s') :
    s.world.calls <+: s'.world.calls := by
  induction hrun with
  | refl => exact List.prefix_refl _
  | tail _ hstep ih => exact ih.trans hstep.calls

/-! ### After the shutdown -/

/-- A thread is about to register the objects of its call. -/
def System.Submitting (s : System Tid Key N V) : Prop :=
  ∃ t call handles, (s.threads t).pc = .submitting call handles

/-- What is given back is given back by the first shutdown: a later one finds StarPU down. -/
theorem unregistered_later {s s' : System Tid Key N V} (hs : s.world.Once)
    (hended : .starpuShutdown ∈ s.world.calls)
    (hlater : Relation.ReflTransGen (LifeStep tfhe main useCufhepp) s s') :
    s'.world.unregistered = s.world.unregistered ∧ .starpuShutdown ∈ s'.world.calls ∧
      s'.world.Once := by
  induction hlater with
  | refl => exact ⟨rfl, hended, hs⟩
  | tail _ hstep ih =>
      obtain ⟨hsame, hended', honce⟩ := ih
      refine ⟨Eq.trans ?_ hsame, hstep.calls.subset hended', honce.lifeStep hstep⟩
      cases hstep with
      | step _ hstep =>
          rcases hstep.world with hkeeps | ⟨-, -, -, access, -, -, -, hworld⟩
          · exact hkeeps.unregistered
          · rw [hworld]
            exact unregistered_register _ access
      | shutdown => rfl
      | shutDown t w hpc hexec hwait =>
          show w.unregistered = _
          rw [eq_of_shutdown hexec, if_neg (by simp [(honce.ended hended').2])]

/-- The registries stay empty while no thread is in a gate call. -/
theorem empty_later {s s' : System Tid Key N V}
    (hempty : s.world.persistentHandles = [] ∧ s.world.persistentVariableHandles = [])
    (hlater : Relation.ReflTransGen
      (fun a b => LifeStep tfhe main useCufhepp a b ∧ ¬ a.Submitting) s s') :
    s'.world.persistentHandles = [] ∧ s'.world.persistentVariableHandles = [] := by
  induction hlater with
  | refl => exact hempty
  | @tail a _ _ hstep ih =>
      obtain ⟨hstep, hquiet⟩ := hstep
      cases hstep with
      | step _ hstep =>
          rcases hstep.world with hkeeps | ⟨t, call, handles, -, hpc, -⟩
          · exact ⟨hkeeps.persistentHandles.trans ih.1, hkeeps.persistentVariableHandles.trans ih.2⟩
          · exact absurd ⟨t, call, handles, hpc⟩ hquiet
      | shutdown => exact ih
      | shutDown t w hpc hexec hwait =>
          show w.persistentHandles = [] ∧ w.persistentVariableHandles = []
          rw [eq_of_shutdown hexec]
          split_ifs
          · obtain ⟨-, -, -, hph, hpv, -⟩ := shutdown_frame a.world useCufhepp
            exact ⟨hph, hpv⟩
          · exact ih

/-- **Until StarPU is shut down every object has one handle**: it is registered once, all
threads are given the same handle for it, and the tokens are over handles of the
registries.  The shutdown gives every handle back once, when all tasks have finished.
StarPU lives once in a process: after a shutdown that ended it a later one, such as the one
`exit` runs, gives nothing more back, and the registries stay empty until another gate call
is made. -/
theorem one_handle_per_object {memory : Place → V} {s s' : System Tid Key N V}
    (hrun : Relation.ReflTransGen (LifeStep tfhe main useCufhepp) (System.start main memory) s)
    (hlater : Relation.ReflTransGen (LifeStep tfhe main useCufhepp) s s')
    (hup : .starpuShutdown ∉ s'.world.calls) :
    (s'.world.registered.map Prod.fst).Nodup ∧ (s'.world.registered.map Prod.snd).Nodup ∧
    (∀ place handle, (place, handle) ∈ s'.world.registered ↔
      s'.world.find place = some handle) ∧
    (∀ t u place handle handle', s.Receives t place handle → s'.Receives u place handle' →
      handle' = handle) ∧
    (∀ t place handle, s.Receives t place handle → s'.world.find place = some handle) ∧
    (∀ (task : IyokanStarpuTask) (state : TaskState),
      s'.world.states[task]? = some state → ∃ call : GateCall Key, s'.submitted[task]? = some call ∧
        s'.world.find call.output = some state.output) ∧
    s'.world.unregistered = [] ∧
    (∀ t s'', LifeStep tfhe main useCufhepp s' s'' → (s'.threads t).pc = .shuttingDown →
      (s''.threads t).pc ≠ .shuttingDown →
      (∀ i, i < s'.submitted.length → i ∈ s'.runtime.finished) ∧
        s''.world.unregistered.Perm (s'.world.registered.map Prod.snd) ∧
        s''.world.unregistered.Nodup ∧
        s''.world.persistentHandles = [] ∧ s''.world.persistentVariableHandles = [] ∧
        (∀ s₃, .starpuShutdown ∈ s''.world.calls →
          Relation.ReflTransGen (LifeStep tfhe main useCufhepp) s'' s₃ →
          s₃.world.unregistered = s''.world.unregistered) ∧
        ∀ s₃, Relation.ReflTransGen
            (fun a b => LifeStep tfhe main useCufhepp a b ∧ ¬ a.Submitting) s'' s₃ →
          s₃.world.persistentHandles = [] ∧ s₃.world.persistentVariableHandles = []) := by
  have hs' := registered_run (hrun.trans hlater) hup
  have hs := registered_run hrun fun hmem => hup ((calls_run hlater).subset hmem)
  have hfind : ∀ t place handle, s.Receives t place handle →
      s'.world.find place = some handle := by
    intro t place handle h
    have hgrown := (calls_run hlater).filterMap LibraryCall.registration
    exact (hs'.registries.log place handle).mp (hgrown.subset (hs.receives h))
  refine ⟨hs'.registries.places, hs'.registries.nodup, hs'.registries.log, ?_, hfind,
    fun task state hstate => hs'.linked.call hstate, hs'.registries.kept, ?_⟩
  · intro t u place handle handle' h h'
    have hfind' := (hs'.registries.log place handle').mp (hs'.receives h')
    exact Option.some.inj (hfind'.symm.trans (hfind t place handle h))
  · intro t s'' hstep hpc hgone
    obtain ⟨hdone, hperm, hnodup, hph, hpv⟩ := hs'.release hstep hpc hgone
    have honce := once_run ((hrun.trans hlater).tail hstep)
    exact ⟨hdone, hperm, hnodup, hph, hpv,
      fun s₃ hended hrest => (unregistered_later honce hended hrest).1,
      fun s₃ hrest => empty_later ⟨hph, hpv⟩ hrest⟩

end Threads

/-- One captured inverter: its two objects are registered, its task runs, a shutdown gives both
handles back, and a second one gives nothing more. -/
theorem one_handle_per_object_inverter : ∃ s s' s₃ : System Unit Unit Unit Bool,
    s.world.find (.persistentHandles, 1) = some 0 ∧
      s'.world.unregistered.Perm [0, 1] ∧ s'.world.persistentHandles = [] ∧
      (s'.threads ()).pc = .idle ∧ (s₃.threads ()).pc = .shuttingDown ∧
      s₃.world.unregistered = s'.world.unregistered := by
  have hrun : ∃ s : System Unit Unit Unit Bool,
      Relation.ReflTransGen (LifeStep clearTFHE () true) (System.start () fun _ => true) s ∧
        (s.world.registered = [((.persistentHandles, 1), 0), ((.persistentHandles, 0), 1)] ∧
          (s.threads ()).pc = .shuttingDown ∧ .starpuShutdown ∉ s.world.calls ∧
          s.world.starpuRunning = true ∧ s.runtime.tasks.length = 1 ∧
          s.runtime.finished = {0}) := by
    refine reach_head (.step _ _ (.beginCapture _ () _ rfl rfl)) ?_
    refine reach_head (.step _ _ (.call _ () (.not 1 0) rfl)) ?_
    refine reach_head (.step _ _ (.ensure _ () none (some _) {} (.ok ⟨⟩) _ rfl rfl)) ?_
    refine reach_head (.step _ _ (.handleFor _ () _ _ ⟨.W, .tlwe, 1⟩ 0 _ rfl rfl rfl)) ?_
    refine reach_head (.step _ _ (.handleFor _ () _ _ ⟨.R, .tlwe, 0⟩ 1 _ rfl rfl rfl)) ?_
    refine reach_head (.step _ _ (.insert _ () _ _ {} 0 _ rfl rfl
      (fun _ _ => List.not_mem_nil) rfl)) ?_
    refine reach_head (.step _ _ (.work _ _ (.start _ 0 _ () false rfl (Finset.notMem_empty 0)
      (fun _ _ h => absurd h (Nat.not_lt_zero _)) (List.forall_mem_singleton.mpr rfl)) rfl
      (fun _ h => absurd h List.not_mem_nil))) ?_
    refine reach_head (.step _ _ (.work _ _ (.finish _ 0 _ rfl ⟨Finset.mem_insert_self 0 ∅,
      Finset.notMem_empty 0⟩) rfl (fun _ h => absurd h List.not_mem_nil))) ?_
    refine reach_head (.shutdown _ () rfl (fun _ h => h)
      (fun _ => (nofun : (Pc.idle : Pc Unit) ≠ .shuttingDown))) ?_
    exact ⟨_, .refl, rfl, rfl, by decide, rfl, rfl, rfl⟩
  obtain ⟨s, hreach, hregistered, hpc, hup, hrunning, hlength, hfinished⟩ := hrun
  obtain ⟨s', hstep, hidle, hended⟩ : ∃ s', LifeStep clearTFHE () true s s' ∧
      (s'.threads ()).pc = .idle ∧ .starpuShutdown ∈ s'.world.calls := by
    refine ⟨_, .shutDown s () _ hpc (exec_shutdownIyokanStarpu true s.world)
      (fun _ i hi => by rw [hfinished, Finset.mem_singleton]; omega), by simp [threads_goto], ?_⟩
    show LibraryCall.starpuShutdown ∈ (ite _ _ _ : World Unit).calls
    rw [if_pos hrunning]
    rcases calls_shutdown s.world true with h | h <;> rw [h] <;> simp
  obtain ⟨-, -, hlog, -, -, -, -, hrelease⟩ := one_handle_per_object hreach .refl hup
  obtain ⟨-, hperm, -, hempty, -, hlater, -⟩ := hrelease () s' hstep hpc (by simp [hidle])
  rw [hregistered] at hperm
  have hagain : LifeStep clearTFHE () true s' (s'.goto () .shuttingDown) :=
    .shutdown s' () hidle (fun _ hentered => by rwa [hidle] at hentered) fun _ => by simp [hidle]
  exact ⟨s, s', _, (hlog _ _).mp (by rw [hregistered]; exact List.mem_cons_self), hperm, hempty,
    hidle, by simp [threads_goto], hlater _ hended (.single hagain)⟩

end Tangor.Iyokan
