/-
Sequential data consistency: any schedule that keeps conflicting tasks in order
computes what the submission order computes.

A `Machine` is a list of submitted tasks of which some have started and some have
finished, and one content per handle.  Tasks are submitted at any time, also while
others run.  A task may start once every earlier task it conflicts with has
finished; between its start and its finish the content of a handle it replaces is
whatever the runtime put there.

The invariant is `Machine.Inv`.  Its heart is the field `contents`: call a prefix of
the submitted tasks *settled for* a handle when every writer of the handle inside
the prefix has finished and no writer outside has touched it.  For a settled prefix
the handle holds what running that prefix in order leaves there.  A running task
sees exactly such prefixes through its operands, because the guard on `start` keeps
every other writer of an operand away, and so it writes what it would have written
in order.
-/
import Tangor.TaskGraph.Task
import Mathlib.Data.Finset.Insert
import Mathlib.Logic.Relation

namespace TaskGraph

variable {H V : Type*}

/-- The tasks submitted so far, how far each one is, and what the handles hold. -/
structure Machine (H V : Type*) where
  /-- What each handle held before any task. -/
  init : H → V
  tasks : List (Task H V)
  started : Finset Nat
  finished : Finset Nat
  contents : H → V

namespace Machine

/-- Nothing submitted, and the handles hold `σ`. -/
def fresh (σ : H → V) : Machine H V where
  init := σ
  tasks := []
  started := ∅
  finished := ∅
  contents := σ

/-- Every earlier task that conflicts with task `i` has finished. -/
def Ready (s : Machine H V) (i : Nat) (t : Task H V) : Prop :=
  ∀ j u, j < i → s.tasks[j]? = some u → u.Conflict t → j ∈ s.finished

/-- The submission of one more task. -/
def submit (s : Machine H V) (t : Task H V) : Machine H V :=
  { s with tasks := s.tasks ++ [t] }

theorem getElem?_submit {s : Machine H V} {t u : Task H V} {j : Nat}
    (h : (s.submit t).tasks[j]? = some u) :
    s.tasks[j]? = some u ∨ (j = s.tasks.length ∧ u = t) := by
  simp only [submit, List.getElem?_append] at h
  split at h
  · exact Or.inl h
  · refine Or.inr ⟨?_, ?_⟩
    · obtain ⟨hlt, -⟩ := List.getElem?_eq_some_iff.mp h
      simp at hlt
      omega
    · simp only [List.getElem?_singleton] at h
      split at h
      · exact (Option.some.inj h).symm
      · exact absurd h (by simp)

theorem getElem?_submit_old {s : Machine H V} (t : Task H V) {u : Task H V} {j : Nat}
    (h : s.tasks[j]? = some u) : (s.submit t).tasks[j]? = some u := by
  obtain ⟨hlt, -⟩ := List.getElem?_eq_some_iff.mp h
  simp only [submit, List.getElem?_append, if_pos hlt]
  exact h

theorem lt_length {s : Machine H V} {j : Nat} {u : Task H V} (h : s.tasks[j]? = some u) :
    j < s.tasks.length := (List.getElem?_eq_some_iff.mp h).1

/-- Tasks start only after the earlier ones they conflict with. -/
structure Ordered (s : Machine H V) : Prop where
  bound : ∀ i ∈ s.started, i < s.tasks.length
  sub : s.finished ⊆ s.started
  order : ∀ i t, i ∈ s.started → s.tasks[i]? = some t → s.Ready i t

theorem ordered_fresh (σ : H → V) : Ordered (fresh σ) where
  bound := by simp [fresh]
  sub := by simp [fresh]
  order := by simp [fresh]

theorem Ordered.submit {s : Machine H V} (hs : Ordered s) (t : Task H V) :
    Ordered (s.submit t) where
  bound := by
    intro i hi
    have := hs.bound i hi
    simp only [Machine.submit, List.length_append, List.length_singleton]
    omega
  sub := hs.sub
  order := by
    intro i u hi hu j w hji hw hc
    have hlt := hs.bound i hi
    rcases getElem?_submit hu with hold | ⟨heq, -⟩
    · rcases getElem?_submit hw with hwold | ⟨hweq, -⟩
      · exact hs.order i u hi hold j w hji hwold hc
      · omega
    · omega

variable [DecidableEq H]

/-- A handle no submitted task opens is given a content. -/
def register (s : Machine H V) (h : H) (v : V) : Machine H V :=
  { s with init := Function.update s.init h v, contents := Function.update s.contents h v }

/-- Task `i` starts; a handle it replaces holds `junk` from now on. -/
def start (s : Machine H V) (i : Nat) (t : Task H V) (junk : V) : Machine H V :=
  { s with
    started := insert i s.started
    contents := if t.update then s.contents else Function.update s.contents t.target junk }

/-- Task `i` finishes and its result is in its target. -/
def finish (s : Machine H V) (i : Nat) (t : Task H V) : Machine H V :=
  { s with finished := insert i s.finished, contents := t.apply s.contents }

/-- What the workers do on their own, in any order that respects the conflicts. -/
inductive Step : Machine H V → Machine H V → Prop
  | start (s : Machine H V) (i : Nat) (t : Task H V) (junk : V) (ht : s.tasks[i]? = some t)
      (hnew : i ∉ s.started) (hready : s.Ready i t) : Step s (s.start i t junk)
  | finish (s : Machine H V) (i : Nat) (t : Task H V) (ht : s.tasks[i]? = some t)
      (hrun : i ∈ s.started) (hnot : i ∉ s.finished) : Step s (s.finish i t)

/-- Task `j` may have changed its target: it finished, or it is replacing it. -/
def Touched (s : Machine H V) (j : Nat) (t : Task H V) : Prop :=
  j ∈ s.finished ∨ (j ∈ s.started ∧ t.update = false)

/-- The first `k` tasks are all that has happened to `h`. -/
structure Settled (s : Machine H V) (h : H) (k : Nat) : Prop where
  before : ∀ j t, s.tasks[j]? = some t → t.target = h → j < k → j ∈ s.finished
  after : ∀ j t, s.tasks[j]? = some t → t.target = h → k ≤ j → ¬ s.Touched j t

/-- What every reachable machine satisfies. -/
structure Inv (s : Machine H V) : Prop extends Ordered s where
  separate : ∀ t ∈ s.tasks, t.Separate
  contents : ∀ h k, s.Settled h k → s.contents h = runAll (s.tasks.take k) s.init h

theorem inv_fresh (σ : H → V) : Inv (fresh σ) where
  toOrdered := ordered_fresh σ
  separate := by simp [fresh]
  contents := by simp [fresh]

/-! ### The order of the starts -/

theorem Ordered.start {s : Machine H V} (hs : Ordered s) {i : Nat} {t : Task H V} (junk : V)
    (ht : s.tasks[i]? = some t) (hready : s.Ready i t) : Ordered (s.start i t junk) where
  bound := by
    intro j hj
    rcases Finset.mem_insert.mp hj with rfl | hj
    · exact lt_length ht
    · exact hs.bound j hj
  sub := fun j hj => Finset.mem_insert_of_mem (hs.sub hj)
  order := by
    intro j u hj hu
    rcases Finset.mem_insert.mp hj with rfl | hj
    · rw [show s.tasks[j]? = some u from hu, Option.some.injEq] at ht
      subst ht
      exact hready
    · exact hs.order j u hj hu

theorem Ordered.finish {s : Machine H V} (hs : Ordered s) {i : Nat} {t : Task H V}
    (hrun : i ∈ s.started) : Ordered (s.finish i t) where
  bound := hs.bound
  sub := by
    intro j hj
    rcases Finset.mem_insert.mp hj with rfl | hj
    · exact hrun
    · exact hs.sub hj
  order := by
    intro j u hj hu m w hmj hw hc
    exact Finset.mem_insert_of_mem (hs.order j u hj hu m w hmj hw hc)

theorem Ordered.step {s s' : Machine H V} (hs : Ordered s) (h : Step s s') : Ordered s' := by
  cases h with
  | start i t junk ht hnew hready => exact hs.start junk ht hready
  | finish i t ht hrun hnot => exact hs.finish hrun

/-! ### Submitting and registering -/

theorem Inv.submit {s : Machine H V} (hs : Inv s) {t : Task H V} (ht : t.Separate) :
    Inv (s.submit t) where
  toOrdered := hs.toOrdered.submit t
  separate := by
    intro u hu
    rcases List.mem_append.mp hu with hold | hnew
    · exact hs.separate u hold
    · rw [List.mem_singleton.mp hnew]
      exact ht
  contents := by
    intro h k hset
    have hold : s.Settled h k :=
      ⟨fun j u hu htgt hjk => hset.before j u (getElem?_submit_old t hu) htgt hjk,
        fun j u hu htgt hkj => hset.after j u (getElem?_submit_old t hu) htgt hkj⟩
    have hval := hs.contents h k hold
    -- Only the prefix that reaches past the old list contains the new task.
    show s.contents h = runAll ((s.tasks ++ [t]).take k) s.init h
    rcases Nat.lt_or_ge s.tasks.length k with hlong | hshort
    · rw [List.take_of_length_le (by simp; omega), runAll_concat, hval,
        List.take_of_length_le (by omega)]
      refine (t.apply_frame _ ?_).symm
      intro htgt
      have hnew : (s.submit t).tasks[s.tasks.length]? = some t := by simp [Machine.submit]
      have hfin := hset.before _ t hnew htgt hlong
      exact absurd (hs.bound _ (hs.sub hfin)) (Nat.lt_irrefl _)
    · rw [List.take_append_of_le_length hshort]
      exact hval

theorem Inv.register {s : Machine H V} (hs : Inv s) {h : H} (v : V)
    (hfresh : ∀ t ∈ s.tasks, h ∉ t.handles) : Inv (s.register h v) where
  toOrdered := ⟨hs.bound, hs.sub, hs.order⟩
  separate := hs.separate
  contents := by
    intro x k hset
    show Function.update s.contents h v x = runAll (s.tasks.take k) (Function.update s.init h v) x
    have hfresh' : ∀ t ∈ s.tasks.take k, h ∉ t.handles :=
      fun t ht => hfresh t (List.mem_of_mem_take ht)
    by_cases hx : x = h
    · subst hx
      have hframe : runAll (s.tasks.take k) (Function.update s.init x v) x
          = Function.update s.init x v x :=
        runAll_frame _ _ fun t ht htgt => hfresh' t ht (by rw [← htgt]; exact t.target_mem_handles)
      rw [hframe, Function.update_self, Function.update_self]
    · rw [Function.update_of_ne hx,
        runAll_init_congr (s.tasks.take k) (τ := s.init) hfresh'
          (fun y hy => Function.update_of_ne hy v s.init) x hx]
      exact hs.contents x k ⟨hset.before, hset.after⟩

/-! ### What the workers do -/

omit [DecidableEq H] in
/-- A started task has every writer of its operands out of the way. -/
theorem Ordered.settled_operand {s : Machine H V} (hs : Ordered s) {i : Nat} {t : Task H V}
    (ht : s.tasks[i]? = some t) (hrun : i ∈ s.started) (hnot : i ∉ s.finished) {h : H}
    (hh : h ∈ t.operands) (hself : t.target = h → t.update = true) : s.Settled h i := by
  have hopen : h ∈ t.handles := Task.operands_subset hh
  refine ⟨?_, ?_⟩
  · intro j u hu htgt hji
    exact hs.order i t hrun ht j u hji hu (Task.conflict_of_target htgt hopen)
  · intro j u hu htgt hij htouch
    rcases Nat.lt_or_ge i j with hlt | hge
    · -- A later writer of the operand waits for `i` itself.
      have hstart : j ∈ s.started := by
        rcases htouch with hfin | ⟨hst, -⟩
        · exact hs.sub hfin
        · exact hst
      exact hnot (hs.order j u hstart hu i t hlt ht (Task.conflict_of_target htgt hopen).symm)
    · -- `i` reads its own target only when it updates it, and then it has not touched it yet.
      have hji : j = i := by omega
      subst hji
      rw [ht, Option.some.injEq] at hu
      subst hu
      rcases htouch with hfin | ⟨-, hrep⟩
      · exact hnot hfin
      · exact absurd (hself htgt) (by simp [hrep])

/-- A running task finds in its operands what it would find there in order. -/
theorem operand_contents {s : Machine H V} (hs : Inv s) {i : Nat} {t : Task H V}
    (ht : s.tasks[i]? = some t) (hrun : i ∈ s.started) (hnot : i ∉ s.finished) {h : H}
    (hh : h ∈ t.operands) : s.contents h = runAll (s.tasks.take i) s.init h :=
  hs.contents h i (hs.toOrdered.settled_operand ht hrun hnot hh
    ((hs.separate t (List.mem_of_getElem? ht)).update hh))

theorem Inv.start {s : Machine H V} (hs : Inv s) {i : Nat} {t : Task H V} (junk : V)
    (ht : s.tasks[i]? = some t) (hnew : i ∉ s.started) (hready : s.Ready i t) :
    Inv (s.start i t junk) where
  toOrdered := hs.toOrdered.start junk ht hready
  separate := hs.separate
  contents := by
    intro h k hset
    have hold : s.Settled h k := by
      refine ⟨hset.before, fun j u hu htgt hkj htouch => hset.after j u hu htgt hkj ?_⟩
      rcases htouch with hfin | ⟨hst, hrep⟩
      · exact Or.inl hfin
      · exact Or.inr ⟨Finset.mem_insert_of_mem hst, hrep⟩
    refine Eq.trans ?_ (hs.contents h k hold)
    show (if t.update then s.contents else Function.update s.contents t.target junk) h
      = s.contents h
    cases hup : t.update with
    | true => simp
    | false =>
        simp only [Bool.false_eq_true, if_false]
        refine Function.update_of_ne ?_ junk s.contents
        -- The target itself is settled for no prefix while `i` replaces it.
        rintro rfl
        rcases Nat.lt_or_ge i k with hik | hki
        · exact hnew (hs.sub (hset.before i t ht rfl hik))
        · exact hset.after i t ht rfl hki (Or.inr ⟨Finset.mem_insert_self i s.started, hup⟩)

theorem Inv.finish {s : Machine H V} (hs : Inv s) {i : Nat} {t : Task H V}
    (ht : s.tasks[i]? = some t) (hrun : i ∈ s.started) (hnot : i ∉ s.finished) :
    Inv (s.finish i t) where
  toOrdered := hs.toOrdered.finish hrun
  separate := hs.separate
  contents := by
    intro h k hset
    show t.apply s.contents h = runAll (s.tasks.take k) s.init h
    by_cases htgt : t.target = h
    · subst htgt
      -- `i` lies inside the prefix, and no writer of its target lies between it and `k`.
      have hik : i < k := by
        by_contra hge
        exact hset.after i t ht rfl (Nat.not_lt.mp hge)
          (Or.inl (Finset.mem_insert_self i s.finished))
      have hlast : ∀ j u, s.tasks[j]? = some u → i + 1 ≤ j → j < k → u.target ≠ t.target := by
        intro j u hu hij hjk htgt
        have hfin : j ∈ s.finished := by
          rcases Finset.mem_insert.mp (hset.before j u hu htgt hjk) with rfl | hfin
          · omega
          · exact hfin
        exact hnot (hs.order j u (hs.sub hfin) hu i t (by omega) ht
          (Task.conflict_of_target htgt t.target_mem_handles).symm)
      have hfront : runAll (s.tasks.take k) s.init t.target
          = runAll (s.tasks.take (i + 1)) s.init t.target := runAll_take_eq hik hlast
      rw [hfront, take_succ_of_getElem? ht, runAll_concat, t.apply_target, t.apply_target]
      exact t.fn_congr fun x hx => operand_contents hs ht hrun hnot hx
    · rw [t.apply_frame _ htgt]
      refine hs.contents h k ⟨?_, ?_⟩
      · intro j u hu hj hjk
        rcases Finset.mem_insert.mp (hset.before j u hu hj hjk) with rfl | hfin
        · rw [ht, Option.some.injEq] at hu
          subst hu
          exact absurd hj htgt
        · exact hfin
      · intro j u hu hj hkj htouch
        refine hset.after j u hu hj hkj ?_
        rcases htouch with hfin | hst
        · exact Or.inl (Finset.mem_insert_of_mem hfin)
        · exact Or.inr hst

/-- **Whatever the workers do next keeps the invariant.** -/
theorem Inv.step {s s' : Machine H V} (hs : Inv s) (h : Step s s') : Inv s' := by
  cases h with
  | start i t junk ht hnew hready => exact hs.start junk ht hnew hready
  | finish i t ht hrun hnot => exact hs.finish ht hrun hnot

/-- **Once every writer of a handle has finished, the handle holds what running all
the tasks in the order of their submission leaves there.** -/
theorem Inv.contents_eq {s : Machine H V} (hs : Inv s) {h : H}
    (hdone : ∀ j t, s.tasks[j]? = some t → t.target = h → j ∈ s.finished) :
    s.contents h = runAll s.tasks s.init h := by
  have hset : s.Settled h s.tasks.length :=
    ⟨fun j t ht htgt _ => hdone j t ht htgt,
      fun j t ht _ hlen => absurd (lt_length ht) (Nat.not_lt.mpr hlen)⟩
  rw [hs.contents h _ hset, List.take_length]

end Machine

end TaskGraph
