/-
Every schedule computes what the tasks compute in the order of their submission.

`TaskGraph.Runtime` already compares a schedule with its tasks run in that order.  Here
that is carried over to a run of the program: `MainInv` follows `main` through its
phases, from the first submission to the written result, with the workers stepping in
between, and `execute_of_build` says that the submission order is the order of the gate
vector.
-/
import Tangor.Program
import Tangor.Fallible

namespace Tangor

open YosysJSONparser TaskGraph Fallible

variable {V N : Type*}

/-- The store after the tasks of a build, one at a time. -/
def finalSlots (gate : Codelet → List V → V) (tasks : List TaskInsert) (σ : Slot → V) : Slot → V :=
  runAll (tasks.map (TaskInsert.toTask gate)) σ

/-- **Building the graph and running its tasks in order is running the gate vector.** -/
theorem execute_of_build {useM12 : Bool} {bc : ParsedBC} {submissions : List Submission}
    (gate : Codelet → List V → V) (hbuild : starpuBuildGraph useM12 bc = .ok submissions)
    (σ : Slot → V) :
    executeGates useM12 bc gate σ = .ok (finalSlots gate (insertedTasks submissions) σ) := by
  unfold executeGates finalSlots
  unfold starpuBuildGraph at hbuild
  generalize bc.gateVector = gates at hbuild ⊢
  induction gates generalizing submissions σ with
  | nil =>
      simp only [List.mapM_nil, pure_eq_ok] at hbuild
      subst hbuild
      rfl
  | cons g rest ih =>
      obtain ⟨submission, others, hg, hrest, rfl⟩ := mapM_cons_eq_ok.mp hbuild
      rw [List.foldlM_cons, executeGate, hg]
      have hothers := fun τ => ih τ hrest
      cases submission with
      | inserted task => exact hothers ((task.toTask gate).apply σ)
      | printed lines => exact hothers σ
      | skipped => exact hothers σ

/-! ### A run of the program -/

variable {gate : Codelet → List V → V} {main : N} {outs : List Slot}

/-- What the phase of `main` says about the runtime. -/
def Phase.Inv (gate : Codelet → List V → V) (main : N) (outs : List Slot)
    (tasks : List TaskInsert) (r : Runtime Slot N V) : Phase V → Prop
  | .submitting rest => r.tasks ++ rest.map (TaskInsert.toTask gate)
      = tasks.map (TaskInsert.toTask gate)
  | .waiting => r.tasks = tasks.map (TaskInsert.toTask gate)
  | .syncing rest => r.tasks = tasks.map (TaskInsert.toTask gate) ∧
      (∀ i < r.tasks.length, i ∈ r.finished) ∧ ∀ slot ∈ outs, slot ∈ rest ∨ r.UpToDate main slot
  | .written result => r.tasks = tasks.map (TaskInsert.toTask gate) ∧
      (∀ i < r.tasks.length, i ∈ r.finished) ∧ result = outs.map (runAll r.tasks r.init)

/-- What every state of a run satisfies. -/
structure MainInv (gate : Codelet → List V → V) (main : N) (outs : List Slot)
    (tasks : List TaskInsert) (σ : Slot → V) (s : MainState N V) : Prop where
  ok : s.runtime.OK
  init : s.runtime.init = σ
  phase : s.phase.Inv gate main outs tasks s.runtime

theorem mainInv_start (σ : Slot → V) (tasks : List TaskInsert) :
    MainInv gate main outs tasks σ (MainState.start main σ tasks) where
  ok := Runtime.ok_fresh main σ
  init := rfl
  phase := by simp [MainState.start, Phase.Inv, Runtime.fresh]

/-- `main` is past the wait for all tasks. -/
def MainState.Waited (s : MainState N V) : Prop :=
  (∃ rest, s.phase = .syncing rest) ∨ ∃ result, s.phase = .written result

theorem MainInv.tasks_finished {tasks : List TaskInsert} {σ : Slot → V} {s : MainState N V}
    (hs : MainInv gate main outs tasks σ s) (hwaited : s.Waited) :
    s.runtime.tasks = tasks.map (TaskInsert.toTask gate) ∧
      ∀ i < s.runtime.tasks.length, i ∈ s.runtime.finished := by
  have hphase := hs.phase
  rcases hwaited with ⟨rest, hrest⟩ | ⟨result, hresult⟩
  · rw [hrest] at hphase
    exact ⟨hphase.1, hphase.2.1⟩
  · rw [hresult] at hphase
    exact ⟨hphase.1, hphase.2.1⟩

/-- Once all tasks are waited for, every valid copy of a slot holds what the tasks leave there
in the order of their submission. -/
theorem MainInv.copies_eq {tasks : List TaskInsert} {σ : Slot → V} {s : MainState N V}
    (hs : MainInv gate main outs tasks σ s) (hwaited : s.Waited) {slot : Slot} {n : N}
    (hn : n ∈ s.runtime.valid slot) :
    s.runtime.copies slot n = finalSlots gate tasks σ slot := by
  obtain ⟨htasks, hdone⟩ := hs.tasks_finished hwaited
  have hwriters : s.runtime.WritersDone slot := by
    intro j t ht _
    exact hdone j (List.getElem?_eq_some_iff.mp ht).1
  rw [hs.ok.copy_eq hwriters hn, htasks, hs.init]
  rfl

theorem MainInv.written_eq {tasks : List TaskInsert} {σ : Slot → V} {s : MainState N V}
    (hs : MainInv gate main outs tasks σ s) {result : List V}
    (hresult : s.phase = .written result) : result = outs.map (finalSlots gate tasks σ) := by
  have hphase := hs.phase
  rw [hresult] at hphase
  obtain ⟨htasks, -, hcopies⟩ := hphase
  rw [hcopies, htasks, hs.init]
  rfl

variable [DecidableEq N]

/-- A step of the workers keeps what the phase says. -/
theorem Phase.Inv.work {tasks : List TaskInsert} {r r' : Runtime Slot N V} {phase : Phase V}
    (hok : r.OK) (h : phase.Inv gate main outs tasks r) (hstep : r.Step r') :
    phase.Inv gate main outs tasks r' := by
  have hfin : (∀ i < r.tasks.length, i ∈ r.finished) → ∀ i < r'.tasks.length, i ∈ r'.finished := by
    intro hdone i hi
    rw [hstep.tasks_eq] at hi
    exact hstep.finished_subset (hdone i hi)
  cases phase with
  | submitting rest => rwa [Phase.Inv, hstep.tasks_eq]
  | waiting => rwa [Phase.Inv, hstep.tasks_eq]
  | syncing rest =>
      obtain ⟨htasks, hdone, hsync⟩ := h
      refine ⟨hstep.tasks_eq.trans htasks, hfin hdone, ?_⟩
      intro slot hslot
      exact (hsync slot hslot).imp_right fun hup => hup.step hok hstep
  | written result =>
      obtain ⟨htasks, hdone, hresult⟩ := h
      refine ⟨hstep.tasks_eq.trans htasks, hfin hdone, ?_⟩
      rw [hstep.tasks_eq, hstep.init_eq]
      exact hresult

theorem MainInv.step {tasks : List TaskInsert} {σ : Slot → V} {s s' : MainState N V}
    (hself : ∀ task ∈ tasks, task.target ∉ task.sources)
    (hs : MainInv gate main outs tasks σ s) (h : MainStep gate main outs s s') :
    MainInv gate main outs tasks σ s' := by
  obtain ⟨hok, hinit, hphase⟩ := hs
  cases h with
  | submit task rest r =>
      have hmem : task.toTask gate ∈ tasks.map (TaskInsert.toTask gate) := by
        rw [← show r.tasks ++ (task :: rest).map (TaskInsert.toTask gate) = _ from hphase]
        exact List.mem_append_right _ (List.mem_map_of_mem List.mem_cons_self)
      have hsep : (task.toTask gate).Separate := by
        obtain ⟨u, hu, heq⟩ := List.mem_map.mp hmem
        rw [← heq]
        exact hself u hu
      refine ⟨hok.submit hsep, hinit, ?_⟩
      show r.tasks ++ [task.toTask gate] ++ rest.map (TaskInsert.toTask gate) = _
      rw [List.append_assoc]
      exact hphase
  | built r =>
      refine ⟨hok, hinit, ?_⟩
      show r.tasks = _
      rw [← show r.tasks ++ [] = _ from hphase, List.append_nil]
  | waited r hdone => exact ⟨hok, hinit, hphase, hdone, fun slot hslot => Or.inl hslot⟩
  | acquire slot rest r hmain =>
      obtain ⟨htasks, hdone, hsync⟩ := hphase
      refine ⟨hok, hinit, htasks, hdone, ?_⟩
      intro x hx
      rcases hsync x hx with hrest | hup
      · rcases List.mem_cons.mp hrest with rfl | hrest
        · refine Or.inr (hok.upToDate ?_ hmain)
          intro j t ht _
          exact hdone j (List.getElem?_eq_some_iff.mp ht).1
        · exact Or.inl hrest
      · exact Or.inr hup
  | write r =>
      obtain ⟨htasks, hdone, hsync⟩ := hphase
      refine ⟨hok, hinit, htasks, hdone, ?_⟩
      refine List.map_congr_left fun slot hslot => ?_
      rcases hsync slot hslot with hnone | hup
      · exact absurd hnone (List.not_mem_nil)
      · exact hup.copy
  | work phase r r' hstep =>
      exact ⟨hok.step hstep, hstep.init_eq.trans hinit, hphase.work hok hstep⟩

/-- **The invariant of every run of the program.** -/
theorem MainInv.run {tasks : List TaskInsert} {σ : Slot → V} {s : MainState N V}
    (hself : ∀ task ∈ tasks, task.target ∉ task.sources)
    (h : Relation.ReflTransGen (MainStep gate main outs) (MainState.start main σ tasks) s) :
    MainInv gate main outs tasks σ s := by
  induction h with
  | refl => exact mainInv_start σ tasks
  | tail _ hstep ih => exact ih.step hself hstep

/-! ### A run that ends -/

theorem submit_all (r : Runtime Slot N V) (tasks : List TaskInsert) :
    Relation.ReflTransGen (MainStep gate main outs) ⟨.submitting tasks, r⟩
      ⟨.submitting [], { r with tasks := r.tasks ++ tasks.map (TaskInsert.toTask gate) }⟩ := by
  induction tasks generalizing r with
  | nil => simpa using Relation.ReflTransGen.refl
  | cons task rest ih =>
      have hrest := ih (r.submit (task.toTask gate))
      rw [show (r.submit (task.toTask gate)).tasks ++ rest.map (TaskInsert.toTask gate)
        = r.tasks ++ (task :: rest).map (TaskInsert.toTask gate) by simp [Runtime.submit]] at hrest
      exact Relation.ReflTransGen.head (MainStep.submit task rest r) hrest

theorem work_all {phase : Phase V} {r r' : Runtime Slot N V}
    (h : Relation.ReflTransGen Runtime.Step r r') :
    Relation.ReflTransGen (MainStep gate main outs) ⟨phase, r⟩ ⟨phase, r'⟩ := by
  induction h with
  | refl => exact Relation.ReflTransGen.refl
  | tail _ hstep ih => exact ih.tail (MainStep.work phase _ _ hstep)

theorem acquire_all {r : Runtime Slot N V} (hmain : ∀ slot, main ∈ r.valid slot)
    (rest : List Slot) :
    Relation.ReflTransGen (MainStep gate main outs) ⟨.syncing rest, r⟩ ⟨.syncing [], r⟩ := by
  induction rest with
  | nil => exact Relation.ReflTransGen.refl
  | cons slot rest ih =>
      exact Relation.ReflTransGen.head (MainStep.acquire slot rest r (hmain slot)) ih

/-- **The program can always finish**: one worker that takes the tasks in order is
enough. -/
theorem exists_written (gate : Codelet → List V → V) (main : N) (outs : List Slot)
    (tasks : List TaskInsert) (σ : Slot → V) :
    ∃ s : MainState N V, Relation.ReflTransGen (MainStep gate main outs)
      (MainState.start main σ tasks) s ∧ ∃ result, s.phase = .written result := by
  have hsubmit : Relation.ReflTransGen (MainStep gate main outs) _ _ :=
    submit_all (Runtime.fresh main σ) tasks
  set r : Runtime Slot N V :=
    { Runtime.fresh main σ with
      tasks := (Runtime.fresh main σ).tasks ++ tasks.map (TaskInsert.toTask gate) }
  have hserial : r.Serial main 0 := ⟨rfl, rfl, fun _ => rfl⟩
  obtain ⟨r', hwork, hdone, htasks, -⟩ := hserial.complete (Nat.zero_le _)
  have hall : ∀ i < r'.tasks.length, i ∈ r'.finished := by
    intro i hi
    rw [htasks] at hi
    rw [hdone.finished]
    exact Finset.mem_range.mpr hi
  refine ⟨⟨.written (outs.map fun slot => r'.copies slot main), r'⟩, ?_, _, rfl⟩
  exact (((hsubmit.trans (work_all hwork)).tail (MainStep.built r')).tail
    (MainStep.waited r' hall)).trans (acquire_all hdone.here outs) |>.tail (MainStep.write r')

end Tangor
