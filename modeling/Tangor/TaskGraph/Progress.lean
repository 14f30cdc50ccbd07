/-
No task is left behind.

Of the tasks that have not finished the first one waits for nobody: what it reads has a valid
copy somewhere, which can be brought to where it runs, and every task it conflicts with and
that comes before it has finished.  So the workers can finish all tasks, whatever has been
started, and wherever: `Held.exists_finished`.

A host may be in the middle of writing a handle no unfinished task opens.  The copies of such
handles, here those `P` holds of, are left alone.
-/
import Tangor.TaskGraph.Unannounced

namespace TaskGraph

variable {H N V : Type*}

namespace Runtime

variable [DecidableEq H] [DecidableEq N] {P : H → Prop} {r r' : Runtime H N V}

/-- A step that leaves the copies of some handles alone. -/
def Spares (P : H → Prop) (r r' : Runtime H N V) : Prop :=
  Step r r' ∧ ∀ h, P h → r'.copies h = r.copies h

/-- Every handle has a valid copy. -/
def Held (r : Runtime H N V) : Prop := ∀ h, (r.valid h).Nonempty

omit [DecidableEq H] [DecidableEq N] in
theorem Sound.held (hr : r.Sound) : r.Held := by
  obtain ⟨c, -, hc⟩ := hr
  exact hc.someValid

theorem Held.step (hr : r.Held) (hstep : Step r r') : r'.Held := by
  cases hstep with
  | transfer x m n hm =>
      intro h
      refine (hr h).mono ?_
      by_cases hx : h = x
      · subst hx
        simp [Runtime.transfer]
      · simp [Runtime.transfer, Function.update_of_ne hx]
  | evict x n hother hidle =>
      intro h
      by_cases hx : h = x
      · subst hx
        obtain ⟨m, hm, hne⟩ := hother
        exact ⟨m, by simp [Runtime.evict, hm, hne]⟩
      · simpa [Runtime.evict, Function.update_of_ne hx] using hr h
  | start i t n junk ht hnew hready hhere =>
      exact someValid_overwrite hr t.target n (r.init t.target)
  | finish i t ht hrun => exact someValid_overwrite hr t.target (r.place i) (r.init t.target)

theorem Held.run (hr : r.Held) (hrun : Relation.ReflTransGen (Spares P) r r') : r'.Held := by
  induction hrun with
  | refl => exact hr
  | tail _ hstep ih => exact ih.step hstep.1

/-- What the handles of a list hold can be brought to one memory. -/
theorem Held.gather (hr : r.Held) (n : N) (hs : List H) (hspared : ∀ h ∈ hs, ¬ P h) :
    ∃ r', Relation.ReflTransGen (Spares P) r r' ∧ (∀ h ∈ hs, n ∈ r'.valid h) ∧
      r'.tasks = r.tasks ∧ r'.started = r.started ∧ r'.finished = r.finished := by
  induction hs with
  | nil => exact ⟨r, .refl, fun h hh => absurd hh List.not_mem_nil, rfl, rfl, rfl⟩
  | cons h rest ih =>
      obtain ⟨r₁, hrun, hvalid, htasks, hstarted, hfinished⟩ :=
        ih fun x hx => hspared x (List.mem_cons_of_mem h hx)
      obtain ⟨m, hm⟩ := hr.run hrun h
      have hstep : Spares P r₁ (r₁.transfer h m n) := by
        refine ⟨.transfer r₁ h m n hm, fun x hx => ?_⟩
        have hxh : x ≠ h := by
          rintro rfl
          exact hspared x List.mem_cons_self hx
        simp [Runtime.transfer, Function.update_of_ne hxh]
      refine ⟨r₁.transfer h m n, hrun.tail hstep, ?_, htasks, hstarted, hfinished⟩
      intro x hx
      by_cases hxh : x = h
      · subst hxh
        simp [Runtime.transfer]
      · have hold := hvalid x ((List.mem_cons.mp hx).resolve_left hxh)
        simpa [Runtime.transfer, Function.update_of_ne hxh] using hold

/-- A task whose predecessors have finished can be run to its end. -/
theorem Held.exists_finish (hr : r.Held) (n : N) {i : Nat} {t : Task H V}
    (ht : r.tasks[i]? = some t) (hnot : i ∉ r.finished) (hbefore : ∀ j < i, j ∈ r.finished)
    (hspared : ∀ h ∈ t.handles, ¬ P h) :
    ∃ r', Relation.ReflTransGen (Spares P) r r' ∧ r'.tasks = r.tasks ∧
      r'.finished = insert i r.finished := by
  -- The last step is the same whether the task is running already or not.
  have hlast : ∀ s : Runtime H N V, s.tasks = r.tasks → s.finished = r.finished →
      i ∈ s.started → Spares P s (s.finish i t) := by
    intro s htasks hfinished hstarted
    refine ⟨.finish s i t (htasks ▸ ht) ⟨hstarted, hfinished ▸ hnot⟩, fun h hh => ?_⟩
    have hne : h ≠ t.target := by
      rintro rfl
      exact hspared _ t.target_mem_handles hh
    exact funext fun m => copies_overwrite s t.target _ _ hne m
  by_cases hstarted : i ∈ r.started
  · exact ⟨r.finish i t, .single (hlast r rfl rfl hstarted), rfl, rfl⟩
  · obtain ⟨s, hrun, hvalid, htasks, hstart, hfinished⟩ :=
      hr.gather (P := P) n t.operands fun h hh => hspared h (Task.operands_subset hh)
    have hstep : Spares P s (s.start i t n (s.init t.target)) := by
      refine ⟨.start s i t n _ (htasks ▸ ht) (hstart ▸ hstarted)
        (fun j u hj _ _ => hfinished ▸ hbefore j hj) hvalid, fun h hh => ?_⟩
      have hne : h ≠ t.target := by
        rintro rfl
        exact hspared _ t.target_mem_handles hh
      exact funext fun m => copies_overwrite s t.target _ _ hne m
    have hfinish := hlast (s.start i t n (s.init t.target)) htasks hfinished
      (Finset.mem_insert_self i s.started)
    exact ⟨_, (hrun.tail hstep).tail hfinish, htasks, congrArg (insert i) hfinished⟩

/-- The first tasks can be finished. -/
theorem Held.exists_first (hr : r.Held) (n : N)
    (hspared : ∀ i t, r.tasks[i]? = some t → i ∉ r.finished → ∀ h ∈ t.handles, ¬ P h) {k : Nat}
    (hk : k ≤ r.tasks.length) :
    ∃ r', Relation.ReflTransGen (Spares P) r r' ∧ r'.tasks = r.tasks ∧
      r.finished ⊆ r'.finished ∧ ∀ i < k, i ∈ r'.finished := by
  induction k with
  | zero => exact ⟨r, .refl, rfl, Finset.Subset.refl _, fun i hi => absurd hi (Nat.not_lt_zero i)⟩
  | succ k ih =>
      obtain ⟨s, hrun, htasks, hsub, hfirst⟩ := ih (Nat.le_of_succ_le hk)
      have hall : ∀ {f : Finset Nat}, s.finished ⊆ f → k ∈ f → ∀ i < k + 1, i ∈ f := by
        intro f hf hmem i hi
        rcases Nat.lt_succ_iff_lt_or_eq.mp hi with hlt | rfl
        · exact hf (hfirst i hlt)
        · exact hmem
      by_cases hdone : k ∈ s.finished
      · exact ⟨s, hrun, htasks, hsub, hall (Finset.Subset.refl _) hdone⟩
      · have ht : r.tasks[k]? = some r.tasks[k] := List.getElem?_eq_getElem hk
        have ht' : s.tasks[k]? = some r.tasks[k] := by rw [htasks, ht]
        obtain ⟨r', hrest, htasks', hfinished⟩ := (hr.run hrun).exists_finish n ht' hdone hfirst
          (hspared k _ ht fun hmem => hdone (hsub hmem))
        have hgrown : s.finished ⊆ r'.finished := hfinished ▸ Finset.subset_insert k s.finished
        exact ⟨r', hrun.trans hrest, htasks'.trans htasks, hsub.trans hgrown,
          hall hgrown (hfinished ▸ Finset.mem_insert_self k s.finished)⟩

/-- **All tasks can be finished** by the workers alone, without touching handles no unfinished
task opens. -/
theorem Held.exists_finished (hr : r.Held) (n : N)
    (hspared : ∀ i t, r.tasks[i]? = some t → i ∉ r.finished → ∀ h ∈ t.handles, ¬ P h) :
    ∃ r', Relation.ReflTransGen (Spares P) r r' ∧ r'.tasks = r.tasks ∧
      ∀ i < r'.tasks.length, i ∈ r'.finished := by
  obtain ⟨r', hrun, htasks, -, hall⟩ := hr.exists_first n hspared (le_refl r.tasks.length)
  exact ⟨r', hrun, htasks, htasks ▸ hall⟩

end Runtime

end TaskGraph
