/-
Straight-line programs: every handle is written once.

For a list of tasks with distinct targets the final store can be read task by task.
Each target ends with the effect of its task on what the task saw, and what a task
saw in a handle is the final content if the handle's writer came earlier in the
list, and the initial content if it did not (`runAll_target`, `runAll_prefix`).

If moreover no task opens a handle a later task writes, every task saw final
contents, so the final store is a solution of the equations the tasks are
(`Straight.solves`).  Which order the tasks were listed in no longer appears.
-/
import Tangor.TaskGraph.Task
import Mathlib.Data.List.Nodup

namespace TaskGraph

variable {H V : Type*}

/-- No two tasks write the same handle. -/
def SingleAssignment (ts : List (Task H V)) : Prop := (ts.map Task.target).Nodup

/-- No task opens a handle that it or a later task writes, its own target apart. -/
structure Straight (ts : List (Task H V)) : Prop where
  noSelf : ∀ t ∈ ts, t.target ∉ t.operands
  later : ts.Pairwise fun t u => u.target ∉ t.handles

/-- What a task opens, and how. -/
def Task.access (t : Task H V) : H × Bool × List H := (t.target, t.update, t.sources)

theorem straight_iff_access {ts : List (Task H V)} : Straight ts ↔
    (∀ a ∈ ts.map Task.access, a.1 ∉ if a.2.1 then a.1 :: a.2.2 else a.2.2) ∧
      (ts.map Task.access).Pairwise fun a b => b.1 ∉ a.1 :: a.2.2 := by
  rw [List.forall_mem_map, List.pairwise_map]
  exact ⟨fun h => ⟨h.noSelf, h.later⟩, fun h => ⟨h.1, h.2⟩⟩

/-- Whether a program is straight-line does not depend on the effects of its tasks. -/
theorem Straight.of_access {ts us : List (Task H V)} (h : Straight ts)
    (haccess : us.map Task.access = ts.map Task.access) : Straight us := by
  rw [straight_iff_access, haccess]
  exact straight_iff_access.mp h

theorem Straight.singleAssignment {ts : List (Task H V)} (h : Straight ts) :
    SingleAssignment ts := by
  refine List.pairwise_map.mpr (h.later.imp ?_)
  intro t u hu heq
  exact hu (heq ▸ t.target_mem_handles)

variable [DecidableEq H]

/-- A written handle ends with the effect of its task on the store the task saw. -/
theorem runAll_target {pre post : List (Task H V)} {t : Task H V}
    (hs : SingleAssignment (pre ++ t :: post)) (σ : H → V) :
    runAll (pre ++ t :: post) σ t.target = t.fn (t.operands.map (runAll pre σ)) := by
  rw [runAll_append, runAll_cons, runAll_frame post _ ?_, t.apply_target]
  intro u hu htgt
  unfold SingleAssignment at hs
  rw [List.map_append, List.map_cons] at hs
  have hnd := (List.nodup_cons.mp (List.nodup_append.mp hs).2.1).1
  exact hnd (List.mem_map.mpr ⟨u, hu, htgt⟩)

/-- What a prefix left in a handle is final as soon as the handle's writer is in it. -/
theorem runAll_prefix {pre post : List (Task H V)} (hs : SingleAssignment (pre ++ post))
    (σ : H → V) {t : Task H V} (ht : t ∈ pre) :
    runAll pre σ t.target = runAll (pre ++ post) σ t.target := by
  rw [runAll_append, runAll_frame post]
  intro u hu htgt
  unfold SingleAssignment at hs
  rw [List.map_append] at hs
  exact (List.nodup_append.mp hs).2.2 _ (List.mem_map_of_mem ht) _ (List.mem_map_of_mem hu)
    htgt.symm

/-- **The final store solves the equations of a straight-line program.** -/
theorem Straight.solves {ts : List (Task H V)} (h : Straight ts) (σ : H → V) {t : Task H V}
    (ht : t ∈ ts) : runAll ts σ t.target = t.fn (t.operands.map (runAll ts σ)) := by
  obtain ⟨pre, post, rfl⟩ := List.append_of_mem ht
  rw [runAll_target h.singleAssignment]
  refine t.fn_congr fun x hx => ?_
  -- Nothing from `t` on writes an operand of `t`.
  rw [runAll_append, runAll_frame (t :: post)]
  intro u hu htgt
  rcases List.mem_cons.mp hu with rfl | hu
  · exact h.noSelf u ht (htgt ▸ hx)
  · have hlater := (List.pairwise_cons.mp (List.pairwise_append.mp h.later).2.1).1 u hu
    exact hlater (htgt ▸ Task.operands_subset hx)

end TaskGraph
