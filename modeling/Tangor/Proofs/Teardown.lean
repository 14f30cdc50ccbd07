/-
The order in which things are torn down.

cuFHEpp may be cleaned up once all tasks have finished, and StarPU shut down once cuFHEpp
has been cleaned up.  `shutdownIyokanStarpu` does it in that order.  `exit` does not: it
runs the handler of cuFHEpp, which was registered last, before the one of StarPU, which is
the one that waits for the tasks.  So it is in order as long as all tasks have finished by
the time `exit` is called, or cuFHEpp is not initialised then.
-/
import Tangor.IyokanExit
import Tangor.Proofs.Registries

namespace Tangor.Iyokan

open Throwing TaskGraph

variable {Tid Key N V : Type}

/-! ### The calls to cuFHEpp and to StarPU -/

/-- How far the libraries are from their end. -/
inductive Phase where
  | clean
  | initialized
  | shutDown
deriving DecidableEq, Repr

/-- One more call, if it is one that the phase allows. -/
def Phase.next : Phase → LibraryCall Key → Option Phase
  | .clean, .cufheInitialize _ => some .initialized
  | .initialized, .cufheCleanUp => some .clean
  | .clean, .starpuShutdown => some .shutDown
  | _, .cufheInitialize _ | _, .cufheCleanUp | _, .starpuShutdown => none
  | phase, _ => some phase

/-- The phase after all calls of the process; there is none if they were out of order. -/
def World.phase? (w : World Key) : Option Phase := w.calls.foldlM Phase.next .clean

theorem next_ordinary {call : LibraryCall Key} (h : call.Ordinary) (phase : Phase) :
    phase.next call = some phase := by
  cases call <;> cases phase <;> first | exact h.elim | rfl

theorem phase_append {w w' : World Key} {calls : List (LibraryCall Key)} {phase : Phase}
    (hw : w.phase? = some phase) (hcalls : w'.calls = w.calls ++ calls) :
    w'.phase? = calls.foldlM Phase.next phase := by
  rw [World.phase?, hcalls, List.foldlM_append]
  rw [World.phase?] at hw
  rw [hw]
  rfl

theorem foldlM_ordinary {calls : List (LibraryCall Key)} (h : ∀ call ∈ calls, call.Ordinary)
    (phase : Phase) : calls.foldlM Phase.next phase = some phase := by
  induction calls with
  | nil => rfl
  | cons call rest ih =>
      rw [List.foldlM_cons, next_ordinary (h call List.mem_cons_self)]
      exact ih fun c hc => h c (List.mem_cons_of_mem _ hc)

/-! ### The globals -/

/-- The phase is that of the globals, and what has been started has its handler. -/
structure World.Orderly (w : World Key) : Prop where
  fresh : w.starpuInitOnce = false → w.starpuInitStatus ≠ 0 ∧ w.starpuRunning = false
  running : w.starpuRunning = true → w.starpuInitStatus = 0 ∧
    .atexit .shutdownIyokanStarpu ∈ w.calls
  initialized : w.cufheppInitialized = true → w.starpuRunning = true ∧
    .atexit .cleanupIyokanCufhepp ∈ w.calls
  phase : w.phase? = some (if w.cufheppInitialized then .initialized
    else if w.starpuInitStatus = 0 ∧ w.starpuRunning = false then .shutDown else .clean)
  cleaned : .cufheCleanUp ∈ w.calls → w.starpuInitStatus = 0

theorem World.Orderly.keeps {w w' : World Key} (hw : w.Orderly) (h : w.Keeps w') :
    w'.Orderly := by
  obtain ⟨calls, hcalls, hordinary⟩ := h.calls
  have hmem : ∀ {call}, call ∈ w.calls → call ∈ w'.calls := fun hcall => by
    rw [hcalls]
    exact List.mem_append_left _ hcall
  refine ⟨?_, ?_, ?_, ?_, ?_⟩
  · rw [h.starpuInitOnce, h.starpuInitStatus, h.starpuRunning]
    exact hw.fresh
  · rw [h.starpuInitStatus, h.starpuRunning]
    exact fun hrunning => ⟨(hw.running hrunning).1, hmem (hw.running hrunning).2⟩
  · rw [h.cufheppInitialized, h.starpuRunning]
    exact fun hinit => ⟨(hw.initialized hinit).1, hmem (hw.initialized hinit).2⟩
  · rw [phase_append hw.phase hcalls, foldlM_ordinary hordinary, h.cufheppInitialized,
      h.starpuInitStatus, h.starpuRunning]
  · intro hclean
    rw [h.starpuInitStatus]
    exact hw.cleaned (mem_of_ordinary h.calls id hclean)

theorem orderly_start : ({} : World Key).Orderly :=
  ⟨fun _ => ⟨by simp, rfl⟩, by simp, by simp, rfl, by simp⟩

theorem World.Orderly.afterInit {w : World Key} (hw : w.Orderly) (honce : w.starpuInitOnce = false)
    (answers : Answers) : (w.afterInit answers).Orderly := by
  obtain ⟨hstatus, hrunning⟩ := hw.fresh honce
  have hinit : w.cufheppInitialized = false := by
    by_contra hinit
    have := (hw.initialized (Bool.not_eq_false _ ▸ hinit)).1
    rw [hrunning] at this
    exact absurd this (by simp)
  obtain ⟨calls, hcalls, hordinary⟩ := ordinary_afterInit w answers
  refine ⟨nofun, ?_, ?_, ?_, ?_⟩
  · intro h
    have hzero : answers.init = 0 := by simpa [World.afterInit, hrunning] using h
    exact ⟨hzero, by simp [World.afterInit, hzero]⟩
  · intro h
    exact absurd h (by simp [World.afterInit, hinit])
  · rw [phase_append hw.phase hcalls, foldlM_ordinary hordinary]
    by_cases hzero : answers.init = 0 <;>
      simp [World.afterInit, hinit, hrunning, hstatus, hzero]
  · intro hclean
    exact absurd (hw.cleaned (mem_of_ordinary ⟨calls, hcalls, hordinary⟩ id hclean)) hstatus

theorem World.Orderly.launched {w : World Key} (hw : w.Orderly)
    (hrunning : w.starpuRunning = true) (hinit : w.cufheppInitialized = false) (evalKey : Key) :
    (w.initialized evalKey).Orderly := by
  obtain ⟨hstatus, hhandler⟩ := hw.running hrunning
  have hcalls : (w.initialized evalKey).calls = w.calls ++
      [.cudaWorkerGetCount, .cufheInitialize evalKey, .atexit .cleanupIyokanCufhepp] := by
    simp [World.initialized, World.call]
  refine ⟨fun honce => (hw.fresh honce), fun _ => ⟨hstatus, ?_⟩, fun _ => ⟨hrunning, ?_⟩, ?_,
    fun _ => hstatus⟩
  · exact hcalls ▸ List.mem_append_left _ hhandler
  · exact hcalls ▸ List.mem_append_right _ (by simp)
  · rw [phase_append hw.phase hcalls]
    simp [hinit, hrunning, Phase.next, World.initialized]

theorem World.Orderly.cleanup {w : World Key} (hw : w.Orderly) : w.cleanupCufhepp.Orderly := by
  unfold World.cleanupCufhepp
  split_ifs with hinit
  · obtain ⟨hrunning, -⟩ := hw.initialized hinit
    obtain ⟨hstatus, hhandler⟩ := hw.running hrunning
    let w' : World Key := { w.call .cufheCleanUp with cufheppInitialized := false }
    have hcalls : w'.calls = w.calls ++ [.cufheCleanUp] := rfl
    refine ⟨hw.fresh, fun _ => ⟨hstatus, List.mem_append_left _ hhandler⟩, nofun, ?_,
      fun _ => hstatus⟩
    show w'.phase? = _
    rw [phase_append hw.phase hcalls]
    simp [hinit, hrunning, Phase.next, World.call]
  · exact hw

/-- The calls of a shutdown before it ends StarPU. -/
theorem keeps_unregister (w : World Key) : w.Keeps w.unregister := by
  refine ⟨rfl, rfl, rfl, rfl, .taskWaitForAll :: w.handles.map .dataUnregisterNoCoherency, ?_, ?_⟩
  · show (w.calls ++ [.taskWaitForAll]) ++ w.handles.map .dataUnregisterNoCoherency = _
    rw [List.append_assoc]
    rfl
  · simp [LibraryCall.Ordinary]

theorem cleanupCufhepp_frame (w : World Key) :
    w.cleanupCufhepp.cufheppInitialized = false ∧
      w.cleanupCufhepp.starpuRunning = w.starpuRunning ∧
      w.cleanupCufhepp.starpuInitStatus = w.starpuInitStatus ∧
      w.cleanupCufhepp.currentEvalKey = w.currentEvalKey := by
  cases hinit : w.cufheppInitialized <;> simp [World.cleanupCufhepp, hinit, World.call]

/-- The globals after StarPU has been shut down. -/
def World.ended (w : World Key) : World Key :=
  { { w with currentEvalKey := none }.call .starpuShutdown with starpuRunning := false }

theorem World.Orderly.ended {w : World Key} (hw : w.Orderly) (hrunning : w.starpuRunning = true)
    (hinit : w.cufheppInitialized = false) : w.ended.Orderly := by
  obtain ⟨hstatus, -⟩ := hw.running hrunning
  have hcalls : w.ended.calls = w.calls ++ [.starpuShutdown] := rfl
  refine ⟨fun honce => ⟨(hw.fresh honce).1, rfl⟩, nofun, fun h => ?_, ?_, fun _ => hstatus⟩
  · exact absurd h (by simp [World.ended, World.call, hinit])
  · rw [phase_append hw.phase hcalls]
    simp [hinit, hrunning, hstatus, Phase.next, World.ended, World.call]

/-- A shutdown cleans cuFHEpp up and then ends StarPU. -/
theorem World.Orderly.shutdown {w : World Key} (hw : w.Orderly) {useCufhepp : Bool}
    (huse : w.cufheppInitialized = true → useCufhepp = true) (hrunning : w.starpuRunning = true) :
    (w.shutdown useCufhepp).Orderly ∧ (w.shutdown useCufhepp).cufheppInitialized = false := by
  have hunregistered := hw.keeps (keeps_unregister w)
  cases useCufhepp with
  | false =>
      have hinit : w.cufheppInitialized = false := by
        by_contra h
        exact absurd (huse (Bool.not_eq_false _ ▸ h)) (by simp)
      exact ⟨hunregistered.ended hrunning hinit, hinit⟩
  | true =>
      obtain ⟨hinit, hrunning', -, -⟩ := cleanupCufhepp_frame w.unregister
      exact ⟨hunregistered.cleanup.ended (hrunning'.trans hrunning) hinit, hinit⟩

/-! ### What the parts of the backend do to the globals -/

theorem status_ensured {answers : Answers} {w w' : World Key}
    (h : (ensureStarpuRuntime answers).exec w = (.ok ⟨⟩, w')) : w'.starpuInitStatus = 0 := by
  rw [exec_ensureStarpuRuntime] at h
  obtain ⟨hr, hw⟩ := Prod.mk.injEq .. ▸ h
  rw [hw] at hr
  by_contra hstatus
  rw [if_neg hstatus] at hr
  cases hr

/-! ### The steps -/

section Threads

variable [DecidableEq Tid] [DecidableEq Key] [DecidableEq N] [Inhabited V] {tfhe : TFHE Key V}
  {main : N} {useCufhepp : Bool}

/-- Tasks start and finish in steps of the workers. -/
theorem Step.progress {s s' : System Tid Key N V} (h : Step tfhe main useCufhepp s s') :
    (s'.runtime.started = s.runtime.started ∧ s'.runtime.finished = s.runtime.finished) ∨
    (s.world.starpuRunning = true ∧ s.runtime.Step s'.runtime) := by
  have hran : ∀ w, (s.ran tfhe main w).runtime.started = s.runtime.started ∧
      (s.ran tfhe main w).runtime.finished = s.runtime.finished :=
    fun w => ⟨foldl_serve_started .., foldl_serve_finished ..⟩
  cases h with
  | work r hstep hrunning hmain => exact Or.inr ⟨hrunning, hstep⟩
  | configure t cpuWorkers cudaDevices r w => exact Or.inl (hran w)
  | ensure t key next answers r w => exact Or.inl (hran w)
  | bind t key next answers r w => exact Or.inl (hran w)
  | handleFor t call handles access handle w => exact Or.inl (hran w)
  | insert t call handles answers task w => exact Or.inl (hran w)
  | refuse t call handles answers text w => exact Or.inl (hran w)
  | completed task w => exact Or.inl (hran w)
  | waited t task state =>
      unfold System.ask
      split_ifs <;> exact Or.inl ⟨rfl, rfl⟩
  | synchronizeOutput t task state =>
      unfold System.ask
      split_ifs <;> exact Or.inl ⟨rfl, rfl⟩
  | hostWrite t place v =>
      unfold System.hostWrite
      cases s.world.find place <;> exact Or.inl ⟨rfl, rfl⟩
  | _ => exact Or.inl ⟨rfl, rfl⟩

/-- Tasks are submitted by threads inside a gate call. -/
theorem Step.submits {s s' : System Tid Key N V} (h : Step tfhe main useCufhepp s s') :
    s'.submitted = s.submitted ∨
      (∃ t, (s.threads t).pc.Entered) ∧ ∃ call, s'.submitted = s.submitted ++ [call] := by
  cases h with
  | insert t call handles answers task w hpc =>
      exact Or.inr ⟨⟨t, by rw [hpc]; trivial⟩, call, rfl⟩
  | waited t task state =>
      unfold System.ask
      split_ifs <;> exact Or.inl rfl
  | synchronizeOutput t task state =>
      unfold System.ask
      split_ifs <;> exact Or.inl rfl
  | _ => exact Or.inl rfl

/-- `ensureStarpuRuntime` lets a thread in if StarPU has been started. -/
theorem Step.admits {s s' : System Tid Key N V} (h : Step tfhe main useCufhepp s s') {u : Tid}
    (hu : (s'.threads u).pc.Uses) :
    (∃ v, (s.threads v).pc.Uses) ∨ s'.world.starpuInitStatus = 0 := by
  have hask : ∀ (t : Tid) (task : IyokanStarpuTask) (state : TaskState),
      ((s.ask t task state).threads u).pc.Uses → ∃ v, (s.threads v).pc.Uses := by
    intro t task state hu
    unfold System.ask at hu
    split_ifs at hu
    · exact uses_update (by simp [Pc.Uses]) hu
    · exact uses_update (by simp [Pc.Uses]) hu
  cases h with
  | ensure t key next answers r w hpc hexec =>
      rw [threads_goto] at hu
      split_ifs at hu
      · rcases r with text | ⟨⟩
        · exact hu.elim
        · exact Or.inr (status_ensured hexec)
      · exact Or.inl ⟨u, hu⟩
  | bind t key next answers r w hpc hlock hexec =>
      exact Or.inl (uses_update (fun _ => by rw [hpc]; trivial) hu)
  | handleFor t call handles access handle w hpc haccess hexec =>
      exact Or.inl (uses_update (fun _ => by rw [hpc]; trivial) hu)
  | waited t task state => exact Or.inl (hask t task state hu)
  | synchronizeOutput t task state => exact Or.inl (hask t task state hu)
  | insert t call handles answers task w hpc =>
      exact Or.inl (uses_update (fun _ => by rw [hpc]; trivial) hu)
  | prepare | call | refuse | acquired | failed | beginCapture | endCapture
    | synchronizeCapture | mark | marked | unmarked =>
      exact Or.inl (uses_update (by simp [Pc.Uses]) hu)
  | configure | completed | hostWrite | markUnregistered | work => exact Or.inl ⟨u, hu⟩

/-! ### The invariant of the backend -/

/-- What holds until a key is bound after a shutdown. -/
structure System.Orderly (useCufhepp : Bool) (s : System Tid Key N V) : Prop where
  keys : s.Keys useCufhepp
  world : s.world.Orderly
  uses : ∀ t, (s.threads t).pc.Uses → s.world.starpuInitStatus = 0
  started : ∀ i ∈ s.runtime.started, i < s.submitted.length
  finished : s.runtime.finished ⊆ s.runtime.started

/-- After a shutdown no call brings a key. -/
def System.NoLateKey (s : System Tid Key N V) : Prop :=
  s.world.Stopped → ∀ t key next, (s.threads t).pc ≠ .binding key next

theorem System.Orderly.step {s s' : System Tid Key N V} (hs : s.Orderly useCufhepp)
    (hkey : s.NoLateKey) (h : Step tfhe main useCufhepp s s') : s'.Orderly useCufhepp := by
  have hstatus : s.world.starpuInitStatus = 0 → s'.world.starpuInitStatus = 0 := by
    intro hzero
    rcases h.globals with hkeeps | ⟨-, -, -, -, honce, -⟩ | ⟨t, key, next, -, -, hworld⟩
    · exact hkeeps.starpuInitStatus.trans hzero
    · exact absurd hzero (hs.world.fresh honce).1
    · exact hworld ▸ hzero
  refine ⟨hs.keys.step h, ?_, ?_, ?_, ?_⟩
  · rcases h.globals with hkeeps | ⟨-, -, -, -, honce, answers, hworld⟩ |
      ⟨t, key, next, hpc, hinit, hworld⟩
    · exact hs.world.keeps hkeeps
    · exact hworld ▸ hs.world.afterInit honce answers
    · have hrunning : s.world.starpuRunning = true := by
        by_contra hdown
        exact hkey ⟨hs.uses t (by rw [hpc]; trivial), Bool.eq_false_iff.mpr hdown⟩ t key next hpc
      have hbound : s.world.Keeps { s.world with currentEvalKey := some key } :=
        ⟨rfl, rfl, rfl, rfl, (keeps_refl s.world).calls⟩
      exact hworld ▸ (hs.world.keeps hbound).launched hrunning hinit key
  · intro u hu
    rcases h.admits hu with ⟨v, hv⟩ | hzero
    · exact hstatus (hs.uses v hv)
    · exact hzero
  · intro i hi
    have hlength : s.submitted.length ≤ s'.submitted.length := by
      rcases h.submits with hsame | ⟨-, call, hmore⟩
      · rw [hsame]
      · simp [hmore]
    refine Nat.lt_of_lt_of_le ?_ hlength
    rcases h.progress with ⟨hstarted, -⟩ | ⟨-, hstep⟩
    · exact hs.started i (hstarted ▸ hi)
    · rcases hstep.started_lt hi with hold | ⟨-, hlt⟩
      · exact hs.started i hold
      · exact hs.keys.length ▸ hlt
  · rcases h.progress with ⟨hstarted, hfinished⟩ | ⟨-, hstep⟩
    · rw [hstarted, hfinished]
      exact hs.finished
    · exact hstep.sub hs.finished

theorem System.Orderly.lifeStep {s s' : System Tid Key N V} (hs : s.Orderly useCufhepp)
    (hkey : s.NoLateKey) (h : LifeStep tfhe main useCufhepp s s') : s'.Orderly useCufhepp := by
  have hkeys := hs.keys.lifeStep h
  cases h with
  | step _ hstep => exact hs.step hkey hstep
  | shutdown t hpc hothers hlock =>
      refine ⟨hkeys, hs.world, fun u hu => ?_, hs.started, hs.finished⟩
      obtain ⟨v, hv⟩ := uses_update (by simp [Pc.Uses]) hu
      exact hs.uses v hv
  | shutDown t w hpc hexec hwait =>
      obtain rfl := eq_of_shutdown hexec
      obtain ⟨hworld, hstatus⟩ : (if s.world.starpuRunning = true then s.world.shutdown useCufhepp
          else s.world).Orderly ∧ (if s.world.starpuRunning = true then s.world.shutdown useCufhepp
          else s.world).starpuInitStatus = s.world.starpuInitStatus := by
        split_ifs with hrunning
        · exact ⟨(hs.world.shutdown (fun h => (hs.keys.cufhepp h).1) hrunning).1,
            (shutdown_frame s.world useCufhepp).1⟩
        · exact ⟨hs.world, rfl⟩
      refine ⟨hkeys, hworld, fun u hu => ?_, ?_, ?_⟩
      · obtain ⟨v, hv⟩ := uses_update (s := s) (by simp [Pc.Uses]) hu
        exact hstatus.trans (hs.uses v hv)
      · intro i hi
        have hi : i ∈ (s.ran tfhe main _).runtime.started := hi
        rw [System.ran, foldl_serve_started] at hi
        exact hs.started i hi
      · show (s.ran tfhe main _).runtime.finished ⊆ (s.ran tfhe main _).runtime.started
        rw [System.ran, foldl_serve_started, foldl_serve_finished]
        exact hs.finished

/-- Every task that has been submitted has finished. -/
def System.AllFinished (s : System Tid Key N V) : Prop :=
  ∀ i, i < s.submitted.length → i ∈ s.runtime.finished

/-- What a step of the backend's life does to the globals: nothing here, or a thread inside a
call starts something, or a shutdown ends everything. -/
theorem LifeStep.globals {s s' : System Tid Key N V} (hs : s.Orderly useCufhepp)
    (h : LifeStep tfhe main useCufhepp s s') :
    s.world.Keeps s'.world ∨
    (∃ t, (s.threads t).pc.Entered ∧ s.world.starpuInitOnce = false ∧
      ∃ answers, s'.world = s.world.afterInit answers) ∨
    (∃ t key next, (s.threads t).pc = .binding key next ∧ s.world.cufheppInitialized = false ∧
      s'.world = ({ s.world with currentEvalKey := some key } : World Key).initialized key) ∨
    (s.AllFinished ∧ s.world.starpuRunning = true ∧ s'.world = s.world.shutdown useCufhepp) := by
  cases h with
  | step _ hstep =>
      rcases hstep.globals with hkeeps | ⟨t, key, next, hpc, hstarted⟩ | hinitialized
      · exact Or.inl hkeeps
      · exact Or.inr (Or.inl ⟨t, by rw [hpc]; trivial, hstarted⟩)
      · exact Or.inr (Or.inr (Or.inl hinitialized))
  | shutdown t hpc hothers hlock => exact Or.inl (keeps_refl s.world)
  | shutDown t w hpc hexec hwait =>
      have hall := fun hrunning => hwait (waits_of_shutdown hexec hrunning)
      obtain rfl := eq_of_shutdown hexec
      by_cases hrunning : s.world.starpuRunning = true
      · exact Or.inr (Or.inr (Or.inr ⟨fun i hi => hall hrunning i (hs.keys.length ▸ hi), hrunning,
          if_pos hrunning⟩))
      · refine Or.inl ?_
        show s.world.Keeps (ite _ _ _)
        rw [if_neg hrunning]
        exact keeps_refl s.world

theorem LifeStep.progress {s s' : System Tid Key N V} (h : LifeStep tfhe main useCufhepp s s') :
    (s'.runtime.started = s.runtime.started ∧ s'.runtime.finished = s.runtime.finished) ∨
    (s.world.starpuRunning = true ∧ s.runtime.Step s'.runtime) := by
  cases h with
  | step _ hstep => exact hstep.progress
  | shutdown => exact Or.inl ⟨rfl, rfl⟩
  | shutDown t w hpc hexec hwait => exact Or.inl ⟨foldl_serve_started .., foldl_serve_finished ..⟩

theorem LifeStep.submits {s s' : System Tid Key N V} (h : LifeStep tfhe main useCufhepp s s') :
    s'.submitted = s.submitted ∨ ∃ t, (s.threads t).pc.Entered := by
  cases h with
  | step _ hstep =>
      rcases hstep.submits with hsame | ⟨hentered, -⟩
      · exact Or.inl hsame
      · exact Or.inr hentered
  | shutdown => exact Or.inl rfl
  | shutDown => exact Or.inl rfl

/-- Finished tasks stay so, and while no thread is inside a call there are no new ones. -/
theorem LifeStep.allFinished {s s' : System Tid Key N V}
    (h : LifeStep tfhe main useCufhepp s s') (hquiet : ∀ t, ¬ (s.threads t).pc.Entered)
    (hall : s.AllFinished) : s'.AllFinished := by
  intro i hi
  rcases h.submits with hsame | ⟨t, ht⟩
  · have hfinished := hall i (hsame ▸ hi)
    rcases h.progress with ⟨-, heq⟩ | ⟨-, hstep⟩
    · exact heq ▸ hfinished
    · exact hstep.finished_subset hfinished
  · exact absurd ht (hquiet t)

/-- While no thread is inside a call nothing is started. -/
theorem LifeStep.quietly {s s' : System Tid Key N V} (hs : s.Orderly useCufhepp)
    (h : LifeStep tfhe main useCufhepp s s') (hquiet : ∀ t, ¬ (s.threads t).pc.Entered) :
    s.world.Keeps s'.world ∨ s.AllFinished ∧ s.world.starpuRunning = true ∧
      s'.world = s.world.shutdown useCufhepp := by
  rcases h.globals hs with hkeeps | ⟨t, ht, -⟩ | ⟨t, key, next, hpc, -⟩ | hshutdown
  · exact Or.inl hkeeps
  · exact absurd ht (hquiet t)
  · exact absurd (by rw [hpc]; trivial) (hquiet t)
  · exact Or.inr hshutdown

omit [DecidableEq Tid] [DecidableEq Key] [DecidableEq N] [Inhabited V] in
/-- A shutdown leaves nothing running or initialised. -/
theorem System.Orderly.down {s : System Tid Key N V} (hs : s.Orderly useCufhepp)
    (hrunning : s.world.starpuRunning = true) :
    (s.world.shutdown useCufhepp).cufheppInitialized = false ∧
      (s.world.shutdown useCufhepp).starpuRunning = false :=
  ⟨(hs.world.shutdown (fun h => (hs.keys.cufhepp h).1) hrunning).2,
    (shutdown_frame s.world useCufhepp).2.2.1⟩

/-! ### The end of the process -/

/-- The condition on a step: `exit` is called when all tasks have finished or cuFHEpp is not
initialised, no gate call or prepare call is under way from then on, and no key is brought
after a shutdown. -/
structure Evaluator.Careful (e e' : Evaluator Tid Key N V) : Prop where
  exit : e.exiting = none → e'.exiting ≠ none → e.system.world.cufheppInitialized = true →
    e.system.AllFinished
  calls : e'.exiting ≠ none → ∀ t, ¬ (e'.system.threads t).pc.Entered
  key : e.system.NoLateKey

/-- What holds before and during the end of a process. -/
structure Evaluator.Tidy (useCufhepp : Bool) (e : Evaluator Tid Key N V) : Prop where
  system : e.system.Orderly useCufhepp
  quiet : e.exiting ≠ none → ∀ t, ¬ (e.system.threads t).pc.Entered
  cleaned : .cufheCleanUp ∈ e.system.world.calls → e.system.world.cufheppInitialized = false ∧
    (e.system.world.starpuRunning = true → e.exiting ≠ none ∧ e.system.AllFinished)
  cleanup : ∀ t handlers, e.exiting = some (t, handlers) →
    e.system.world.cufheppInitialized = true →
    .cleanupIyokanCufhepp ∈ handlers ∧ e.system.AllFinished
  shutdown : ∀ t handlers, e.exiting = some (t, handlers) →
    e.system.world.starpuRunning = true → .shutdownIyokanStarpu ∈ handlers

omit [DecidableEq Key] in
theorem mem_exitHandlers {w : World Key} {handler : ExitHandler}
    (h : .atexit handler ∈ w.calls) : handler ∈ w.exitHandlers :=
  List.mem_reverse.mpr (List.mem_filterMap.mpr ⟨_, h, rfl⟩)

theorem Evaluator.Tidy.life {e : Evaluator Tid Key N V} (he : e.Tidy useCufhepp)
    {s : System Tid Key N V} (hkey : e.system.NoLateKey)
    (hquiet : e.exiting ≠ none → ∀ t, ¬ (s.threads t).pc.Entered)
    (h : LifeStep tfhe main useCufhepp e.system s) :
    ({ e with system := s } : Evaluator Tid Key N V).Tidy useCufhepp := by
  have hs := he.system.lifeStep hkey h
  refine ⟨hs, hquiet, ?_, ?_, ?_⟩
  · intro hclean
    rcases h.globals he.system with hkeeps | ⟨t, ht, honce, answers, hworld⟩ |
      ⟨t, key, next, hpc, hinit, hworld⟩ | ⟨-, hrunning, hworld⟩
    · obtain ⟨hinit, hdown⟩ := he.cleaned (mem_of_ordinary hkeeps.calls id hclean)
      refine ⟨hkeeps.cufheppInitialized.trans hinit, fun hrunning => ?_⟩
      obtain ⟨hexiting, hall⟩ := hdown (hkeeps.starpuRunning ▸ hrunning)
      exact ⟨hexiting, h.allFinished (he.quiet hexiting) hall⟩
    · have hclean : .cufheCleanUp ∈ s.world.calls := hclean
      rw [hworld] at hclean
      have hmem := mem_of_ordinary (ordinary_afterInit e.system.world answers) id hclean
      exact absurd (he.system.world.cleaned hmem) (he.system.world.fresh honce).1
    · have hmem : .cufheCleanUp ∈ e.system.world.calls := by
        have hclean : .cufheCleanUp ∈ s.world.calls := hclean
        rw [hworld] at hclean
        simpa [World.initialized, World.call] using hclean
      obtain ⟨-, hdown⟩ := he.cleaned hmem
      have hstopped : e.system.world.Stopped := by
        refine ⟨he.system.world.cleaned hmem, Bool.eq_false_iff.mpr fun hrunning => ?_⟩
        exact he.quiet (hdown hrunning).1 t (by rw [hpc]; trivial)
      exact absurd hpc (hkey hstopped t key next)
    · obtain ⟨hinit, hdown⟩ := he.system.down hrunning
      exact ⟨hworld ▸ hinit, fun hup => absurd ((hworld ▸ hup).symm.trans hdown) (by simp)⟩
  · intro t handlers hexiting hinit
    have hidle := he.quiet (by rw [hexiting]; simp)
    rcases h.quietly he.system hidle with hkeeps | ⟨-, hrunning, hworld⟩
    · obtain ⟨hmem, hall⟩ := he.cleanup t handlers hexiting (hkeeps.cufheppInitialized ▸ hinit)
      exact ⟨hmem, h.allFinished hidle hall⟩
    · exact absurd ((hworld ▸ hinit).symm.trans (he.system.down hrunning).1) (by simp)
  · intro t handlers hexiting hup
    have hidle := he.quiet (by rw [hexiting]; simp)
    rcases h.quietly he.system hidle with hkeeps | ⟨-, hrunning, hworld⟩
    · exact he.shutdown t handlers hexiting (hkeeps.starpuRunning ▸ hup)
    · exact absurd ((hworld ▸ hup).symm.trans (he.system.down hrunning).2) (by simp)

omit [DecidableEq Tid] [DecidableEq Key] in
theorem System.Orderly.cleanup {s : System Tid Key N V} (hs : s.Orderly useCufhepp) :
    (s.ran tfhe main s.world.cleanupCufhepp).Orderly useCufhepp := by
  obtain ⟨hinit, hrunning, hstatus, hkey⟩ := cleanupCufhepp_frame s.world
  have hfinished : (s.ran tfhe main s.world.cleanupCufhepp).runtime.finished
      = s.runtime.finished := foldl_serve_finished ..
  have hstarted : (s.ran tfhe main s.world.cleanupCufhepp).runtime.started
      = s.runtime.started := foldl_serve_started ..
  have hkeys : (s.ran tfhe main s.world.cleanupCufhepp).Keys useCufhepp := by
    refine ⟨?_, ?_, hs.keys.locked, ?_, fun h => absurd (hinit.symm.trans h) (by simp)⟩
    · exact (ran_length s tfhe main (submitsNothing_cleanupCufhepp s.world)).trans hs.keys.length
    · intro t
      show (s.threads t).pc.Keys s.world.cleanupCufhepp.currentEvalKey
      exact hkey ▸ hs.keys.pcs t
    · intro i call key hcall hevalKey hnot
      show s.world.cleanupCufhepp.currentEvalKey = some key
      rw [hfinished] at hnot
      exact hkey.trans (hs.keys.pending i call key hcall hevalKey hnot)
  exact ⟨hkeys, hs.world.cleanup, fun t ht => hstatus.trans (hs.uses t ht),
    hstarted ▸ hs.started, hstarted ▸ hfinished ▸ hs.finished⟩

theorem Evaluator.Tidy.step {e e' : Evaluator Tid Key N V} (he : e.Tidy useCufhepp)
    (hcareful : e.Careful e') (h : ExitStep tfhe main useCufhepp e e') : e'.Tidy useCufhepp := by
  cases h with
  | life s h hexiting => exact he.life hcareful.key hcareful.calls h
  | exit t hpc hrunning =>
      refine ⟨he.system, hcareful.calls, ?_, ?_, ?_⟩
      · intro hclean
        obtain ⟨hinit, hdown⟩ := he.cleaned hclean
        exact ⟨hinit, fun hup => absurd hrunning (hdown hup).1⟩
      · intro u handlers hexiting hinit
        obtain ⟨-, rfl⟩ := Prod.mk.inj (Option.some.inj hexiting)
        exact ⟨mem_exitHandlers (he.system.world.initialized hinit).2,
          hcareful.exit hrunning (by simp) hinit⟩
      · intro u handlers hexiting hup
        obtain ⟨-, rfl⟩ := Prod.mk.inj (Option.some.inj hexiting)
        exact mem_exitHandlers (he.system.world.running hup).2
  | cleanupIyokanCufhepp t rest w hexiting hexec =>
      rw [exec_cleanupIyokanCufhepp] at hexec
      obtain ⟨-, rfl⟩ := Prod.mk.injEq .. ▸ hexec
      obtain ⟨hinit, hrunning, -, -⟩ := cleanupCufhepp_frame e.system.world
      have hall : .cufheCleanUp ∈ e.system.world.cleanupCufhepp.calls →
          e.system.world.starpuRunning = true → e.system.AllFinished := by
        intro hclean hup
        by_cases hinit : e.system.world.cufheppInitialized = true
        · exact (he.cleanup t _ hexiting hinit).2
        · rw [World.cleanupCufhepp, if_neg hinit] at hclean
          exact ((he.cleaned hclean).2 hup).2
      refine ⟨he.system.cleanup, hcareful.calls, fun hclean => ⟨hinit, fun hup => ⟨by simp, ?_⟩⟩,
        ?_, ?_⟩
      · intro i hi
        have hfinished : (e.system.ran tfhe main e.system.world.cleanupCufhepp).runtime.finished
            = e.system.runtime.finished := foldl_serve_finished ..
        exact hfinished ▸ hall hclean (hrunning ▸ hup) i hi
      · exact fun _ _ _ h => absurd (hinit.symm.trans h) (by simp)
      · intro u handlers hrest hup
        obtain ⟨-, rfl⟩ := Prod.mk.inj (Option.some.inj hrest)
        have hmem := he.shutdown t _ hexiting (hrunning ▸ hup)
        exact (List.mem_cons.mp hmem).resolve_left (by simp)
  | shutdownIyokanStarpu t rest hexiting hpc hlock =>
      have hidle := he.quiet (by rw [hexiting]; simp)
      have h : LifeStep tfhe main useCufhepp e.system (e.system.goto t .shuttingDown) :=
        .shutdown e.system t hpc hidle hlock
      exact he.life hcareful.key hcareful.calls h
  | shutDown t rest s hexiting hpc h hdone =>
      have hlife := he.life hcareful.key (fun _ => hcareful.calls (by simp)) h
      obtain ⟨hworld, -⟩ := h.leaves hpc hdone
      have hdown : s.world.starpuRunning = false := by
        rw [hworld]
        split_ifs with hrunning
        · exact (he.system.down hrunning).2
        · exact Bool.eq_false_iff.mpr hrunning
      refine ⟨hlife.system, hcareful.calls, fun hclean => ⟨(hlife.cleaned hclean).1, fun hup => ?_⟩,
        fun u handlers hrest hinit => ?_, fun u handlers hrest hup => ?_⟩
      · exact absurd (hdown.symm.trans hup) (by simp)
      · exact absurd (hdown.symm.trans (hlife.system.world.initialized hinit).1) (by simp)
      · exact absurd (hdown.symm.trans hup) (by simp)

/-- What the teardown has to keep to in a step.  cuFHEpp is cleaned up, and StarPU shut down,
when every submitted task has finished; no task starts after a clean-up.  The calls are in
order: cuFHEpp is cleaned up once for each initialisation, and StarPU is shut down after
that.  When `exit` has run its handlers, cuFHEpp is cleaned up and StarPU down. -/
structure Evaluator.InOrder (e e' : Evaluator Tid Key N V) : Prop where
  cleaned : e.system.world.cufheppInitialized = true →
    e'.system.world.cufheppInitialized = false → e.system.AllFinished
  last : .cufheCleanUp ∈ e.system.world.calls →
    e'.system.runtime.started ⊆ e.system.runtime.started
  shutDown : e.system.world.starpuRunning = true → e'.system.world.starpuRunning = false →
    e.system.AllFinished ∧ e'.system.world.cufheppInitialized = false
  calls : e'.system.world.phase? ≠ none
  done : ∀ t, e'.exiting = some (t, []) → e'.system.world.cufheppInitialized = false ∧
    e'.system.world.starpuRunning = false

omit [DecidableEq Tid] [DecidableEq Key] [Inhabited V] in
/-- No task starts after a clean-up. -/
theorem Evaluator.Tidy.last {e : Evaluator Tid Key N V} (he : e.Tidy useCufhepp)
    {s : System Tid Key N V} (hclean : .cufheCleanUp ∈ e.system.world.calls)
    (hprogress : (s.runtime.started = e.system.runtime.started ∧
        s.runtime.finished = e.system.runtime.finished) ∨
      (e.system.world.starpuRunning = true ∧ e.system.runtime.Step s.runtime)) :
    s.runtime.started ⊆ e.system.runtime.started := by
  rcases hprogress with ⟨hstarted, -⟩ | ⟨hrunning, hstep⟩
  · rw [hstarted]
  · obtain ⟨-, hall⟩ := (he.cleaned hclean).2 hrunning
    intro i hi
    rcases hstep.started_lt hi with hold | ⟨-, hlt⟩
    · exact hold
    · exact he.system.finished (hall i (he.system.keys.length ▸ hlt))

/-- A step of the backend's life ends something only in a shutdown. -/
theorem Evaluator.Tidy.ends {e : Evaluator Tid Key N V} (he : e.Tidy useCufhepp)
    {s : System Tid Key N V} (h : LifeStep tfhe main useCufhepp e.system s) :
    (e.system.world.cufheppInitialized = true → s.world.cufheppInitialized = false →
      e.system.AllFinished) ∧
    (e.system.world.starpuRunning = true → s.world.starpuRunning = false →
      e.system.AllFinished ∧ s.world.cufheppInitialized = false) := by
  rcases h.globals he.system with hkeeps | ⟨t, ht, honce, answers, hworld⟩ |
    ⟨t, key, next, hpc, hinit, hworld⟩ | ⟨hall, hrunning, hworld⟩
  · rw [hkeeps.cufheppInitialized, hkeeps.starpuRunning]
    exact ⟨fun hup hdown => absurd (hup.symm.trans hdown) (by simp),
      fun hup hdown => absurd (hup.symm.trans hdown) (by simp)⟩
  · have hsame : s.world.cufheppInitialized = e.system.world.cufheppInitialized := by rw [hworld]; rfl
    refine ⟨fun hup hdown => absurd (hup.symm.trans (hsame.symm.trans hdown)) (by simp),
      fun hup => absurd (hup.symm.trans (he.system.world.fresh honce).2) (by simp)⟩
  · refine ⟨fun hup => absurd (hup.symm.trans hinit) (by simp), fun hup hdown => ?_⟩
    have hsame : s.world.starpuRunning = e.system.world.starpuRunning := by rw [hworld]; rfl
    exact absurd (hup.symm.trans (hsame.symm.trans hdown)) (by simp)
  · exact ⟨fun _ _ => hall, fun _ _ => ⟨hall, hworld ▸ (he.system.down hrunning).1⟩⟩

theorem Evaluator.Tidy.inOrder {e e' : Evaluator Tid Key N V} (he : e.Tidy useCufhepp)
    (hcareful : e.Careful e') (h : ExitStep tfhe main useCufhepp e e') : e.InOrder e' := by
  have he' := he.step hcareful h
  have hdone : ∀ t, e'.exiting = some (t, []) → e'.system.world.cufheppInitialized = false ∧
      e'.system.world.starpuRunning = false := by
    refine fun t hexiting => ⟨?_, ?_⟩
    · by_contra hinit
      exact absurd (he'.cleanup t [] hexiting (by simpa using hinit)).1 (by simp)
    · by_contra hup
      exact absurd (he'.shutdown t [] hexiting (by simpa using hup)) (by simp)
  have hphase : e'.system.world.phase? ≠ none := by
    rw [he'.system.world.phase]
    simp
  have hsame : e'.system.world = e.system.world → e'.system.runtime = e.system.runtime →
      e.InOrder e' := by
    intro hworld hruntime
    refine ⟨fun hup hdown => ?_, fun _ => by rw [hruntime], fun hup hdown => ?_, hphase, hdone⟩
    · exact absurd (hup.symm.trans (hworld ▸ hdown)) (by simp)
    · exact absurd (hup.symm.trans (hworld ▸ hdown)) (by simp)
  cases h with
  | life s h hexiting =>
      obtain ⟨hcleaned, hshutDown⟩ := he.ends h
      exact ⟨hcleaned, fun hclean => he.last hclean h.progress, hshutDown, hphase, hdone⟩
  | exit t hpc hrunning => exact hsame rfl rfl
  | cleanupIyokanCufhepp t rest w hexiting hexec =>
      rw [exec_cleanupIyokanCufhepp] at hexec
      obtain ⟨-, rfl⟩ := Prod.mk.injEq .. ▸ hexec
      obtain ⟨-, hrunning, -, -⟩ := cleanupCufhepp_frame e.system.world
      refine ⟨fun hup _ => (he.cleanup t _ hexiting hup).2, fun _ => ?_, fun hup hdown => ?_,
        hphase, hdone⟩
      · have hstarted : (e.system.ran tfhe main e.system.world.cleanupCufhepp).runtime.started
            = e.system.runtime.started := foldl_serve_started ..
        exact hstarted ▸ Finset.Subset.refl _
      · exact absurd (hup.symm.trans (hrunning.symm.trans hdown)) (by simp)
  | shutdownIyokanStarpu t rest hexiting hpc hlock => exact hsame rfl rfl
  | shutDown t rest s hexiting hpc h =>
      obtain ⟨hcleaned, hshutDown⟩ := he.ends h
      exact ⟨hcleaned, fun hclean => he.last hclean h.progress, hshutDown, hphase, hdone⟩

/-- A process that starts. -/
def Evaluator.start (main : N) (memory : Place → V) : Evaluator Tid Key N V :=
  ⟨System.start main memory, none⟩

omit [DecidableEq Tid] [DecidableEq Key] [DecidableEq N] in
theorem tidy_start (main : N) (memory : Place → V) :
    (Evaluator.start main memory : Evaluator Tid Key N V).Tidy useCufhepp where
  system := ⟨keys_start useCufhepp main memory, orderly_start, fun _ h => h.elim,
    fun i hi => absurd hi (Finset.notMem_empty i), Finset.Subset.refl _⟩
  quiet := fun h => absurd rfl h
  cleaned := fun h => absurd h List.not_mem_nil
  cleanup := nofun
  shutdown := nofun

theorem tidy_run {memory : Place → V} {e : Evaluator Tid Key N V}
    (hrun : Relation.ReflTransGen
      (fun a b => ExitStep tfhe main useCufhepp a b ∧ Evaluator.Careful a b)
      (Evaluator.start main memory) e) : e.Tidy useCufhepp := by
  induction hrun with
  | refl => exact tidy_start main memory
  | tail _ h ih => exact ih.step h.2 h.1

/-- **The teardown is in order as long as `exit` waits**: in every run in which `exit` is
called after all tasks have finished, or while cuFHEpp is not initialised, and no call is
made from then on or brings a key after a shutdown, every step keeps to the order. -/
theorem teardown_in_order {memory : Place → V} {e e' : Evaluator Tid Key N V}
    (hrun : Relation.ReflTransGen
      (fun a b => ExitStep tfhe main useCufhepp a b ∧ Evaluator.Careful a b)
      (Evaluator.start main memory) e)
    (hstep : ExitStep tfhe main useCufhepp e e') (hcareful : e.Careful e') : e.InOrder e' :=
  (tidy_run hrun).inOrder hcareful hstep

end Threads

/-- A gate that is captured and still waits for a worker when `exit` is called: cuFHEpp is
cleaned up before it, and then it starts. -/
theorem captured_at_exit : ∃ e : Evaluator Unit Unit Unit Bool,
    Relation.ReflTransGen (ExitStep clearTFHE () true) (Evaluator.start () fun _ => true) e ∧
      ∃ e' e'', ExitStep clearTFHE () true e e' ∧ ¬ e.InOrder e' ∧
        ExitStep clearTFHE () true e' e'' ∧ ¬ e'.InOrder e'' := by
  refine reach_head (.life _ _ (.step _ _ (.beginCapture _ () _ rfl rfl)) nofun) ?_
  refine reach_head (.life _ _ (.step _ _ (.call _ () (.binaryGate .AND 2 0 1 ()) rfl)) nofun) ?_
  refine reach_head (.life _ _ (.step _ _ (.ensure _ () (some ()) (some _) {} (.ok ⟨⟩) _ rfl rfl))
    nofun) ?_
  refine reach_head (.life _ _ (.step _ _ (.bind _ () () (some _)
    { cudaWorkers := 1, cudaDevices := 1 } (.ok ⟨⟩) _ rfl
    (fun _ => (nofun : (Pc.binding () _ : Pc Unit) ≠ .shuttingDown)) rfl)) nofun) ?_
  refine reach_head (.life _ _ (.step _ _ (.handleFor _ () _ _ ⟨.W, .tlwe, 2⟩ 0 _ rfl rfl rfl))
    nofun) ?_
  refine reach_head (.life _ _ (.step _ _ (.handleFor _ () _ _ ⟨.R, .tlwe, 0⟩ 1 _ rfl rfl rfl))
    nofun) ?_
  refine reach_head (.life _ _ (.step _ _ (.handleFor _ () _ _ ⟨.R, .tlwe, 1⟩ 2 _ rfl rfl rfl))
    nofun) ?_
  refine reach_head (.life _ _ (.step _ _ (.insert _ () _ _ {} 0 _ rfl rfl
    (fun _ _ => List.not_mem_nil) rfl)) nofun) ?_
  refine reach_head (.exit _ () rfl rfl) ?_
  refine ⟨_, .refl, _, _, .cleanupIyokanCufhepp _ () _ _ rfl rfl, fun h => ?_,
    .life _ _ (.step _ _ (.work _ _ (.start _ 0 _ () false rfl (Finset.notMem_empty 0)
      (fun _ _ h => absurd h (Nat.not_lt_zero _)) (by
        rintro h (_ | ⟨_, _ | ⟨_, ⟨⟩⟩⟩) <;> rfl)) rfl
      (fun _ h => absurd h List.not_mem_nil))) ?_, fun h => ?_⟩
  · exact Finset.notMem_empty 0 (h.cleaned rfl rfl 0 (by decide))
  · rintro _ _ ⟨⟩
    exact ⟨by simp, rfl⟩
  · exact Finset.notMem_empty 0 (h.last (by decide) (Finset.mem_insert_self 0 ∅))

/-- Before `exit` a step is careful as long as StarPU is not shut down. -/
theorem careful_life {a b : System Unit Unit Unit Bool} (hstopped : ¬ a.world.Stopped)
    (h : LifeStep clearTFHE () true a b) :
    ExitStep clearTFHE () true ⟨a, none⟩ ⟨b, none⟩ ∧ Evaluator.Careful ⟨a, none⟩ ⟨b, none⟩ := by
  refine ⟨.life ⟨a, none⟩ b h fun _ _ hexiting => absurd hexiting (by simp), ?_⟩
  exact ⟨fun _ h => absurd rfl h, fun h => absurd rfl h, fun h => absurd h hstopped⟩

/-- A captured gate has run, with cuFHEpp initialised. -/
theorem exists_captured : ∃ e : Evaluator Unit Unit Unit Bool,
    Relation.ReflTransGen (fun a b => ExitStep clearTFHE () true a b ∧ Evaluator.Careful a b)
      (Evaluator.start () fun _ => true) e ∧ ∃ s, e = ⟨s, none⟩ ∧
        s.submitted = [.binaryGate .AND 2 0 1 ()] ∧ s.runtime.finished = {0} ∧
        (s.threads ()).pc = .idle ∧ s.world.cufheppInitialized = true ∧
        s.world.starpuRunning = true ∧
        s.world.exitHandlers = [.cleanupIyokanCufhepp, .shutdownIyokanStarpu] := by
  refine reach_head (careful_life (fun h => absurd h.1 (by decide))
    (.step _ _ (.beginCapture _ () _ rfl rfl))) ?_
  refine reach_head (careful_life (fun h => absurd h.1 (by decide))
    (.step _ _ (.call _ () (.binaryGate .AND 2 0 1 ()) rfl))) ?_
  refine reach_head (careful_life (fun h => absurd h.1 (by decide))
    (.step _ _ (.ensure _ () (some ()) (some _) {} (.ok ⟨⟩) _ rfl rfl))) ?_
  refine reach_head (careful_life (fun h => absurd h.2 (by decide))
    (.step _ _ (.bind _ () () (some _) { cudaWorkers := 1, cudaDevices := 1 } (.ok ⟨⟩) _ rfl
      (fun _ => (nofun : (Pc.binding () _ : Pc Unit) ≠ .shuttingDown)) rfl))) ?_
  refine reach_head (careful_life (fun h => absurd h.2 (by decide))
    (.step _ _ (.handleFor _ () _ _ ⟨.W, .tlwe, 2⟩ 0 _ rfl rfl rfl))) ?_
  refine reach_head (careful_life (fun h => absurd h.2 (by decide))
    (.step _ _ (.handleFor _ () _ _ ⟨.R, .tlwe, 0⟩ 1 _ rfl rfl rfl))) ?_
  refine reach_head (careful_life (fun h => absurd h.2 (by decide))
    (.step _ _ (.handleFor _ () _ _ ⟨.R, .tlwe, 1⟩ 2 _ rfl rfl rfl))) ?_
  refine reach_head (careful_life (fun h => absurd h.2 (by decide))
    (.step _ _ (.insert _ () _ _ {} 0 _ rfl rfl (fun _ _ => List.not_mem_nil) rfl))) ?_
  refine reach_head (careful_life (fun h => absurd h.2 (by decide))
    (.step _ _ (.work _ _ (.start _ 0 _ () false rfl (Finset.notMem_empty 0)
      (fun _ _ h => absurd h (Nat.not_lt_zero _)) (by
        rintro h (_ | ⟨_, _ | ⟨_, ⟨⟩⟩⟩) <;> rfl)) rfl
      (fun _ h => absurd h List.not_mem_nil)))) ?_
  refine reach_head (careful_life (fun h => absurd h.2 (by decide))
    (.step _ _ (.work _ _ (.finish _ 0 _ rfl ⟨Finset.mem_insert_self 0 ∅,
      Finset.notMem_empty 0⟩) rfl (fun _ h => absurd h List.not_mem_nil)))) ?_
  exact ⟨_, .refl, _, rfl, rfl, rfl, rfl, rfl, rfl, rfl⟩

/-- A captured gate has run when `exit` is called, and cuFHEpp is cleaned up by its handler. -/
theorem teardown_in_order_captured : ∃ e e' : Evaluator Unit Unit Unit Bool,
    e.system.submitted = [.binaryGate .AND 2 0 1 ()] ∧ e.system.runtime.finished = {0} ∧
      e.system.world.cufheppInitialized = true ∧ e'.system.world.cufheppInitialized = false ∧
      e.InOrder e' := by
  obtain ⟨_, hreach, s, rfl, hsubmitted, hfinished, hpc, hinit, hrunning, hhandlers⟩ :=
    exists_captured
  have hstopped : ¬ s.world.Stopped := fun h => absurd (h.2.symm.trans hrunning) (by simp)
  have hquiet : ∀ t, ¬ (s.threads t).pc.Entered := fun t => by
    rw [show s.threads t = s.threads () from rfl, hpc]
    exact id
  have hall : s.AllFinished := fun i hi => by
    rw [hsubmitted] at hi
    rw [hfinished, Finset.mem_singleton]
    exact Nat.lt_one_iff.mp hi
  have hexit : ExitStep clearTFHE () true ⟨s, none⟩ _ := .exit _ () hpc rfl
  have hreach' := hreach.tail
    ⟨hexit, fun _ _ _ => hall, fun _ => hquiet, fun h => absurd h hstopped⟩
  rw [hhandlers] at hreach'
  have hstep : ExitStep clearTFHE () true
      ⟨s, some ((), [.cleanupIyokanCufhepp, .shutdownIyokanStarpu])⟩ _ :=
    .cleanupIyokanCufhepp _ () _ _ rfl (exec_cleanupIyokanCufhepp s.world)
  exact ⟨_, _, hsubmitted, hfinished, hinit, by simp [System.ran, World.cleanupCufhepp, hinit],
    teardown_in_order hreach' hstep
      ⟨fun h => absurd h (by simp), fun _ => hquiet, fun h => absurd h hstopped⟩⟩

end Tangor.Iyokan
