/-
What starts StarPU and cuFHEpp, and what ends them.

A step of the backend's life either changes none of the flags that say what is up
(`World.Keeps`), or it is one of three: `ensureStarpuRuntime` starts StarPU for the first
time, the binding of a key initialises cuFHEpp, or a shutdown ends both (`Step.globals` has
the first two).  StarPU is started once and shut down for good, which is `World.Once`.
-/
import Tangor.IyokanThreads
import Tangor.Proofs.Keys
import Tangor.Proofs.Lifetime

namespace Tangor.Iyokan

open Throwing TaskGraph

variable {Tid Key N V : Type}

/-! ### The flags -/

/-- Calls that neither start nor end cuFHEpp, and do not end StarPU. -/
def LibraryCall.Ordinary : LibraryCall Key → Prop
  | .cufheInitialize _ | .cufheCleanUp | .starpuShutdown => False
  | _ => True

/-- Parts of the backend that neither start, initialise nor end anything. -/
structure World.Keeps (w w' : World Key) : Prop where
  starpuInitOnce : w'.starpuInitOnce = w.starpuInitOnce
  starpuInitStatus : w'.starpuInitStatus = w.starpuInitStatus
  starpuRunning : w'.starpuRunning = w.starpuRunning
  cufheppInitialized : w'.cufheppInitialized = w.cufheppInitialized
  calls : ∃ calls, w'.calls = w.calls ++ calls ∧ ∀ call ∈ calls, call.Ordinary

theorem keeps_refl (w : World Key) : w.Keeps w := ⟨rfl, rfl, rfl, rfl, [], by simp, by simp⟩

theorem keeps_call (w : World Key) {call : LibraryCall Key} (h : call.Ordinary) :
    w.Keeps (w.call call) := ⟨rfl, rfl, rfl, rfl, [call], rfl, by simpa using h⟩

/-- A call that is not ordinary was made before. -/
theorem mem_of_ordinary {w w' : World Key}
    (h : ∃ calls, w'.calls = w.calls ++ calls ∧ ∀ call ∈ calls, call.Ordinary)
    {call : LibraryCall Key} (hcall : ¬ call.Ordinary) (hmem : call ∈ w'.calls) :
    call ∈ w.calls := by
  obtain ⟨calls, hcalls, hordinary⟩ := h
  rw [hcalls] at hmem
  exact (List.mem_append.mp hmem).resolve_right fun hnew => hcall (hordinary _ hnew)

theorem ordinary_afterInit (w : World Key) (answers : Answers) :
    ∃ calls, (w.afterInit answers).calls = w.calls ++ calls ∧ ∀ call ∈ calls, call.Ordinary := by
  refine ⟨_, rfl, ?_⟩
  split_ifs <;> simp [LibraryCall.Ordinary]

theorem keeps_configure {cpuWorkers cudaDevices : Nat} {w w' : World Key} {r : Except String PUnit}
    (h : (configureIyokanStarpu cpuWorkers cudaDevices).exec w = (r, w')) : w.Keeps w' := by
  rw [exec_configureIyokanStarpu] at h
  split_ifs at h
  · obtain ⟨-, rfl⟩ := Prod.mk.injEq .. ▸ h
    exact keeps_refl w
  · obtain ⟨-, rfl⟩ := Prod.mk.injEq .. ▸ h
    exact ⟨rfl, rfl, rfl, rfl, (keeps_refl w).calls⟩

theorem keeps_handleFor {access : Access} {w w' : World Key} {r : Except String Handle}
    (h : (handleFor access).exec w = (r, w')) : w.Keeps w' := by
  rw [exec_handleFor] at h
  split at h
  · obtain ⟨-, rfl⟩ := Prod.mk.injEq .. ▸ h
    exact keeps_refl w
  · obtain ⟨-, rfl⟩ := Prod.mk.injEq .. ▸ h
    rcases access with ⟨mode, _ | _ | _, address⟩ <;>
      exact ⟨rfl, rfl, rfl, rfl, _, rfl, by simp [Access.registerCall, LibraryCall.Ordinary]⟩

theorem keeps_insertTask {answers : Answers} {submission : Submission} {handles : List Handle}
    {w w' : World Key} {r : Except String IyokanStarpuTask}
    (h : (insertTask answers submission handles).exec w = (r, w')) : w.Keeps w' := by
  rw [exec_insertTask] at h
  have hkeeps : w.Keeps (w.call (submission.insertCall handles answers.insert)) :=
    keeps_call w trivial
  by_cases hinsert : answers.insert = 0
  · simp only [if_pos hinsert] at h
    obtain ⟨-, rfl⟩ := Prod.mk.injEq .. ▸ h
    exact ⟨rfl, rfl, rfl, rfl, hkeeps.calls⟩
  · simp only [if_neg hinsert] at h
    obtain ⟨-, rfl⟩ := Prod.mk.injEq .. ▸ h
    exact hkeeps

theorem globals_ensureStarpuRuntime {answers : Answers} {w w' : World Key}
    {r : Except String PUnit} (h : (ensureStarpuRuntime answers).exec w = (r, w')) :
    w.Keeps w' ∨ w.starpuInitOnce = false ∧ w' = w.afterInit answers := by
  rw [exec_ensureStarpuRuntime] at h
  obtain ⟨-, rfl⟩ := Prod.mk.injEq .. ▸ h
  cases w.starpuInitOnce with
  | true => exact Or.inl (keeps_refl w)
  | false => exact Or.inr ⟨rfl, rfl⟩

/-- The globals after cuFHEpp has been initialised. -/
def World.initialized (w : World Key) (evalKey : Key) : World Key :=
  { ((w.call .cudaWorkerGetCount).call (.cufheInitialize evalKey)).call
      (.atexit .cleanupIyokanCufhepp) with cufheppInitialized := true }

theorem globals_bindEvalKey [DecidableEq Key] {useCufhepp : Bool} {answers : Answers}
    {evalKey : Key} {w w' : World Key} {r : Except String PUnit}
    (h : (bindEvalKey useCufhepp answers evalKey).exec w = (r, w')) :
    w.Keeps w' ∨ w.cufheppInitialized = false ∧
      w' = ({ w with currentEvalKey := some evalKey } : World Key).initialized evalKey := by
  by_cases haccepts : w.Accepts evalKey
  · rw [exec_bindEvalKey_accepted useCufhepp answers haccepts] at h
    obtain ⟨-, rfl⟩ := Prod.mk.injEq .. ▸ h
    have hbound : w.Keeps { w with currentEvalKey := some evalKey } :=
      ⟨rfl, rfl, rfl, rfl, (keeps_refl w).calls⟩
    have hcount : w.Keeps (({ w with currentEvalKey := some evalKey } : World Key).call
        .cudaWorkerGetCount) := ⟨rfl, rfl, rfl, rfl, [_], rfl, by simp [LibraryCall.Ordinary]⟩
    simp only [World.bind, World.initializeCufhepp]
    split_ifs with huse hinit hdevices
    · exact Or.inl hbound
    · exact Or.inr ⟨Bool.eq_false_iff.mpr hinit, rfl⟩
    · exact Or.inl hcount
    · exact Or.inl hbound
  · rw [exec_bindEvalKey_rejected useCufhepp answers haccepts] at h
    obtain ⟨-, rfl⟩ := Prod.mk.injEq .. ▸ h
    exact Or.inl (keeps_refl w)

/-! ### StarPU is started once -/

/-- StarPU is up only after it was started, and once it is shut down it is not started again. -/
structure World.Once (w : World Key) : Prop where
  started : w.starpuRunning = true → w.starpuInitOnce = true
  ended : .starpuShutdown ∈ w.calls → w.starpuInitOnce = true ∧ w.starpuRunning = false

theorem World.Once.keeps {w w' : World Key} (hw : w.Once) (h : w.Keeps w') : w'.Once := by
  refine ⟨?_, fun hmem => ?_⟩
  · rw [h.starpuRunning, h.starpuInitOnce]
    exact hw.started
  · rw [h.starpuRunning, h.starpuInitOnce]
    exact hw.ended (mem_of_ordinary h.calls id hmem)

theorem World.Once.afterInit {w : World Key} (hw : w.Once) (honce : w.starpuInitOnce = false)
    (answers : Answers) : (w.afterInit answers).Once := by
  refine ⟨fun _ => rfl, fun hmem => ?_⟩
  have hended := (hw.ended (mem_of_ordinary (ordinary_afterInit w answers) id hmem)).1
  exact absurd (honce.symm.trans hended) (by simp)

/-- What `initializeIyokanCufhepp` calls does not end StarPU. -/
theorem World.Once.initialized {w : World Key} (hw : w.Once) (key : Key) :
    (({ w with currentEvalKey := some key } : World Key).initialized key).Once := by
  refine ⟨hw.started, fun hmem => hw.ended ?_⟩
  simpa [World.initialized, World.call] using hmem

theorem World.Once.shutdown {w : World Key} (hw : w.Once) (hrunning : w.starpuRunning = true)
    (useCufhepp : Bool) : (w.shutdown useCufhepp).Once := by
  obtain ⟨-, honce, hdown, -⟩ := shutdown_frame w useCufhepp
  have hended := honce.trans (hw.started hrunning)
  exact ⟨fun _ => hended, fun _ => ⟨hended, hdown⟩⟩

/-! ### The steps -/

section Threads

variable [DecidableEq Tid] [DecidableEq Key] [DecidableEq N] [Inhabited V] {tfhe : TFHE Key V}
  {main : N} {useCufhepp : Bool}

/-- What a step does to the globals. -/
theorem Step.globals {s s' : System Tid Key N V} (h : Step tfhe main useCufhepp s s') :
    s.world.Keeps s'.world ∨
    (∃ t key next, (s.threads t).pc = .ensuring key next ∧ s.world.starpuInitOnce = false ∧
      ∃ answers, s'.world = s.world.afterInit answers) ∨
    ∃ t key next, (s.threads t).pc = .binding key next ∧ s.world.cufheppInitialized = false ∧
      s'.world = ({ s.world with currentEvalKey := some key } : World Key).initialized key := by
  have hask : ∀ (t : Tid) (task : IyokanStarpuTask) (state : TaskState),
      s.world.Keeps (s.ask t task state).world := by
    intro t task state
    unfold System.ask
    split_ifs
    · exact keeps_call s.world trivial
    · exact keeps_refl s.world
  cases h with
  | configure t cpuWorkers cudaDevices r w hpc hlock hexec => exact Or.inl (keeps_configure hexec)
  | ensure t key next answers r w hpc hexec =>
      rcases globals_ensureStarpuRuntime hexec with h | ⟨honce, hworld⟩
      · exact Or.inl h
      · exact Or.inr (Or.inl ⟨t, key, next, hpc, honce, answers, hworld⟩)
  | bind t key next answers r w hpc hlock hexec =>
      rcases globals_bindEvalKey hexec with h | ⟨hinit, hworld⟩
      · exact Or.inl h
      · exact Or.inr (Or.inr ⟨t, key, next, hpc, hinit, hworld⟩)
  | handleFor t call handles access handle w hpc haccess hexec =>
      exact Or.inl (keeps_handleFor hexec)
  | insert t call handles answers task w hpc hall hclean hexec =>
      exact Or.inl (keeps_insertTask hexec)
  | refuse t call handles answers text w hpc hall hexec => exact Or.inl (keeps_insertTask hexec)
  | completed task w hfinished hexec =>
      obtain ⟨-, rfl⟩ := Prod.mk.injEq .. ▸ hexec
      exact Or.inl ⟨rfl, rfl, rfl, rfl, (keeps_refl s.world).calls⟩
  | waited t task state => exact Or.inl (hask t task state)
  | synchronizeOutput t task state => exact Or.inl (hask t task state)
  | failed => exact Or.inl ⟨rfl, rfl, rfl, rfl, (keeps_refl s.world).calls⟩
  | acquired | mark | marked => exact Or.inl (keeps_call s.world trivial)
  | prepare | call | beginCapture | endCapture | synchronizeCapture | hostWrite | unmarked
    | markUnregistered | work => exact Or.inl (keeps_refl s.world)

theorem World.Once.lifeStep {s s' : System Tid Key N V} (hs : s.world.Once)
    (h : LifeStep tfhe main useCufhepp s s') : s'.world.Once := by
  cases h with
  | step _ hstep =>
      rcases hstep.globals with hkeeps | ⟨-, -, -, -, honce, answers, hworld⟩ |
        ⟨-, key, -, -, -, hworld⟩
      · exact hs.keeps hkeeps
      · exact hworld ▸ hs.afterInit honce answers
      · exact hworld ▸ hs.initialized key
  | shutdown => exact hs
  | shutDown t w hpc hexec hwait =>
      show w.Once
      rw [eq_of_shutdown hexec]
      split_ifs with hrunning
      · exact hs.shutdown hrunning useCufhepp
      · exact hs

theorem once_run {memory : Place → V} {s : System Tid Key N V}
    (hrun : Relation.ReflTransGen (LifeStep tfhe main useCufhepp) (System.start main memory) s) :
    s.world.Once := by
  induction hrun with
  | refl => exact ⟨by simp [System.start], by simp [System.start]⟩
  | tail _ hstep ih => exact ih.lifeStep hstep

end Threads

end Tangor.Iyokan
