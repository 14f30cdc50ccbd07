/-
What the token of a capture stands for.

`captureTask` keeps the last task of a capture and forgets the others.  StarPU orders two
tasks only if they share an object that one of them writes, so the token answers for the
calls from which a chain of such conflicts leads to the last one: these have finished
when it has.  A call the last one does not depend on may still be waiting, and its result
may be anywhere; the capture of two unrelated gates shows it.
-/
import Tangor.Proofs.Threads

namespace Tangor.Iyokan

open Throwing TaskGraph

variable {Tid Key N V : Type}

/-! ### The tasks of a capture -/

/-- A capture remembers the last of its tasks. -/
structure System.Captured (s : System Tid Key N V) : Prop where
  scopes : ∀ t, (s.threads t).capture.capturedTask = (s.threads t).scope.getLast?
  captures : ∀ capture ∈ s.captures, capture.token = capture.tasks.getLast?

theorem captured_start [Inhabited V] (main : N) (memory : Place → V) :
    (System.start main memory : System Tid Key N V).Captured where
  scopes := fun _ => rfl
  captures := fun capture hmem => absurd hmem (by simp [System.start])

/-! ### What the token answers for -/

/-- The call at `i` conflicts with the later one at `j`. -/
def System.Precedes (s : System Tid Key N V) (i j : Nat) : Prop :=
  i < j ∧ ∃ a b, s.submitted[i]? = some a ∧ s.submitted[j]? = some b ∧ a.Conflict b

/-- The output of a call is in host memory, and no other copy is newer. -/
def System.OutputCurrent (main : N) (s : System Tid Key N V) (task : IyokanStarpuTask) : Prop :=
  ∃ call handle, s.submitted[task]? = some call ∧ s.world.find call.output = some handle ∧
    s.runtime.Current main handle

/-- What a token of some captured tasks guarantees. -/
structure System.Covered (main : N) (s : System Tid Key N V) (tasks : List IyokanStarpuTask)
    (token : IyokanStarpuTask) : Prop where
  last : tasks.getLast? = some token
  finished : token ∈ s.runtime.finished → ∀ task ∈ tasks,
    Relation.ReflTransGen s.Precedes task token → task ∈ s.runtime.finished
  synchronized : token ∈ s.synchronized → token ∈ s.runtime.finished ∧
    ((∀ call, s.submitted[token]? = some call → ∀ j other, s.submitted[j]? = some other →
      token < j → other.output ≠ call.output) → s.OutputCurrent main token)

section Tokens

variable [Inhabited V] {tfhe : TFHE Key V} {main : N} {useCufhepp : Bool} {σ : Place → V}

/-- A task that has finished was preceded by every task it depends on. -/
theorem System.Inv.precedes {s : System Tid Key N V} (hs : s.Inv tfhe main useCufhepp σ)
    {i j : Nat} (hij : s.Precedes i j) (hj : j ∈ s.runtime.finished) :
    i ∈ s.runtime.finished := by
  obtain ⟨hlt, a, b, ha, hb, hconflict⟩ := hij
  obtain ⟨shadow, hshadow⟩ := hs.objects.memory.shadowed
  obtain ⟨t, ht, htn⟩ := hs.objects.names.task ha
  obtain ⟨u, hu, hun⟩ := hs.objects.names.task hb
  exact hshadow.sound.finished_order hj hu ht hlt (htn.conflict hun hconflict)

theorem System.Inv.covered {s : System Tid Key N V} (hs : s.Inv tfhe main useCufhepp σ)
    {tasks : List IyokanStarpuTask} {token : IyokanStarpuTask}
    (hlast : tasks.getLast? = some token) : s.Covered main tasks token where
  last := hlast
  finished := by
    intro htoken task hmem hchain
    clear hmem
    induction hchain using Relation.ReflTransGen.head_induction_on with
    | refl => exact htoken
    | head hstep _ ih => exact hs.precedes hstep ih
  synchronized := by
    intro hsync
    obtain ⟨call, hcall, hfresh⟩ := hs.objects.synchronized token hsync
    refine ⟨hfresh.finished, fun hlater => ?_⟩
    obtain ⟨handle, hfind⟩ := hfresh.found
    exact ⟨call, handle, hcall, hfind, hfresh.current (hlater call hcall) handle hfind⟩

end Tokens

/-! ### The steps -/

section Steps

variable [DecidableEq Tid]

/-- A thread that only goes on keeps its capture. -/
theorem capture_goto (s : System Tid Key N V) (t u : Tid) (pc : Pc Key) :
    ((s.goto t pc).threads u).capture = (s.threads u).capture ∧
      ((s.goto t pc).threads u).scope = (s.threads u).scope := by
  by_cases hut : u = t
  · subst hut
    simp [System.goto]
  · simp [System.goto, hut]

theorem System.Captured.goto {s : System Tid Key N V} (hs : s.Captured) (t : Tid) (pc : Pc Key) :
    (s.goto t pc).Captured where
  scopes := by
    intro u
    rw [(capture_goto s t u pc).1, (capture_goto s t u pc).2]
    exact hs.scopes u
  captures := hs.captures

variable [DecidableEq Key] [DecidableEq N] [Inhabited V] {tfhe : TFHE Key V} {main : N}
  {useCufhepp : Bool} {σ : Place → V}

theorem System.Captured.step {s s' : System Tid Key N V} (hs : s.Captured)
    (h : Step tfhe main useCufhepp s s') : s'.Captured := by
  have hask : ∀ t task state, (s.ask t task state).Captured := by
    intro t task state
    unfold System.ask
    split_ifs
    · exact System.Captured.goto (s := s.called _) ⟨hs.scopes, hs.captures⟩ t _
    · exact hs.goto t _
  have hran : ∀ w, (s.ran tfhe main w).Captured := fun w => ⟨hs.scopes, hs.captures⟩
  have hcalled : ∀ call, (s.called call).Captured := fun call => ⟨hs.scopes, hs.captures⟩
  cases h with
  | configure | completed => exact hran _
  | hostWrite | markUnregistered | work => exact ⟨hs.scopes, hs.captures⟩
  | prepare t | call t | synchronizeCapture t | unmarked t => exact hs.goto t _
  | ensure t | bind t | handleFor t | refuse t => exact (hran _).goto t _
  | waited t task state | synchronizeOutput t task state => exact hask t task state
  | mark t => exact (hcalled _).goto t _
  | acquired t | marked t | failed t =>
      have hgone := hs.goto t .idle
      exact ⟨hgone.scopes, hgone.captures⟩
  | insert t call handles answers task w hpc hall hclean hexec =>
      refine ⟨fun u => ?_, hs.captures⟩
      by_cases hut : u = t
      · subst hut
        by_cases hcapture : (s.threads u).capture.captureActive = true
        · simp [System.accepted, System.ran, hcapture, captureTask]
        · simpa [System.accepted, System.ran, hcapture] using hs.scopes u
      · simpa [System.accepted, System.ran, hut] using hs.scopes u
  | beginCapture t capture hpc hcapture =>
      refine ⟨fun u => ?_, hs.captures⟩
      by_cases hut : u = t
      · subst hut
        unfold beginIyokanStarpuCapture at hcapture
        split_ifs at hcapture
        obtain rfl := Except.ok.inj hcapture
        simp
      · simpa [hut] using hs.scopes u
  | endCapture t token capture hpc hcapture =>
      unfold endIyokanStarpuCapture at hcapture
      split_ifs at hcapture
      obtain ⟨rfl, rfl⟩ := Prod.mk.inj (Except.ok.inj hcapture)
      refine ⟨fun u => ?_, fun capture hmem => ?_⟩
      · by_cases hut : u = t
        · subst hut
          simp
        · simpa [hut] using hs.scopes u
      · rcases List.mem_cons.mp hmem with rfl | hmem
        · exact hs.scopes t
        · exact hs.captures capture hmem

theorem System.Captured.run {s s' : System Tid Key N V} (hs : s.Captured)
    (h : Relation.ReflTransGen (Step tfhe main useCufhepp) s s') : s'.Captured := by
  induction h with
  | refl => exact hs
  | tail _ hstep ih => exact ih.step hstep

/-- **The token of a capture answers for the last call and what it depends on**: inside
the scope and after its end.  A capture with a task has a token. -/
theorem capture_covered {s : System Tid Key N V}
    (hrun : Relation.ReflTransGen (Step tfhe main useCufhepp) (System.start main σ) s) :
    (∀ capture ∈ s.captures, capture.token = capture.tasks.getLast? ∧
      ∀ token, capture.token = some token → s.Covered main capture.tasks token) ∧
    ∀ t, (s.threads t).capture.capturedTask = (s.threads t).scope.getLast? ∧
      ∀ token, (s.threads t).capture.capturedTask = some token →
        s.Covered main (s.threads t).scope token := by
  have hs := (inv_start σ).run hrun
  have hcaptured := (captured_start main σ).run hrun
  refine ⟨fun capture hmem => ⟨hcaptured.captures capture hmem, fun token htoken => ?_⟩,
    fun t => ⟨hcaptured.scopes t, fun token htoken => ?_⟩⟩
  · exact hs.covered ((hcaptured.captures capture hmem).symm.trans htoken)
  · exact hs.covered ((hcaptured.scopes t).symm.trans htoken)

end Steps

/-- The token of the second inverter. -/
theorem capture_covered_twoInverters : ∃ s : System Unit Unit Unit Bool,
    s.submitted = [.not 1 0, .not 3 2] ∧ s.Covered () [0, 1] 1 := by
  obtain ⟨s, hrun, hsubmitted, -, -, hcaptures, -⟩ := exists_twoInverters
  exact ⟨s, hsubmitted,
    ((capture_covered hrun).1 ⟨[0, 1], some 1⟩ (by simp [hcaptures])).2 1 rfl⟩

/-- The token is finished and synchronised, and the first inverter has not run. -/
theorem capture_unfinished : ¬ ∀ s : System Unit Unit Unit Bool,
    Relation.ReflTransGen (Step clearTFHE () false) (System.start () fun _ => true) s →
    ∀ capture ∈ s.captures, ∀ token, capture.token = some token → token ∈ s.synchronized →
      ∀ task ∈ capture.tasks, task ∈ s.runtime.finished ∧ s.OutputCurrent () task := by
  intro h
  obtain ⟨s, hrun, -, hsync, -, hcaptures, hfinished⟩ := exists_twoInverters
  have hdone := (h s hrun ⟨[0, 1], some 1⟩ (by simp [hcaptures]) 1 rfl (by simp [hsync]) 0
    (by simp)).1
  rw [hfinished] at hdone
  exact absurd hdone (by decide)

end Tangor.Iyokan
