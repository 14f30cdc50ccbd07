/-
What a program has put into its objects.

A program submits tasks over its objects and writes some of them itself in between; of an
object it has just made it knows nothing.  A `Record` goes through this in the order of the
program: what each task is to find in the objects, and what is in them after the last one,
as far as that is known.

`Recorded` ties a runtime to it.  As long as the first `k` tasks, and the last write of the
program, are all that has happened to an object, every valid copy of its handle holds what
the record has for the task at position `k`.  `Step.recorded` is the reason why a task
finds what it is to find: the workers keep to the record, whatever the program may still
be doing to objects that no unfinished task opens.
-/
import Tangor.TaskGraph.Host
import Tangor.TaskGraph.Named

namespace TaskGraph

variable {X H N V : Type*}

/-! ### Records -/

structure Record (X V : Type*) where
  /-- What the objects held when each of the tasks was submitted. -/
  before : List (X → Option V) := []
  /-- What they hold after all of them. -/
  now : X → Option V := fun _ => none
  /-- How many tasks there were when the program last wrote the object. -/
  since : X → Nat := fun _ => 0

namespace Record

/-- What the task at position `k` is to find, or would be. -/
def seen (R : Record X V) (k : Nat) : X → Option V := R.before[k]?.getD R.now

theorem seen_of_le {R : Record X V} {k : Nat} (h : R.before.length ≤ k) : R.seen k = R.now := by
  rw [seen, List.getElem?_eq_none h, Option.getD_none]

variable [DecidableEq X]

/-- A task is submitted that leaves `result` in its target. -/
def submit (R : Record X V) (target : X) (result : Option V) : Record X V :=
  { R with before := R.before ++ [R.now], now := Function.update R.now target result }

/-- The program writes `v`. -/
def write (R : Record X V) (x : X) (v : V) : Record X V :=
  { R with
    now := Function.update R.now x (some v)
    since := Function.update R.since x R.before.length }

/-- Nothing is known of the object any more. -/
def forget (R : Record X V) (x : X) : Record X V :=
  { R with now := Function.update R.now x none }

theorem seen_submit {R : Record X V} {k : Nat} (h : k ≤ R.before.length) (target : X)
    (result : Option V) : (R.submit target result).seen k = R.seen k := by
  rcases Nat.lt_or_eq_of_le h with hlt | rfl
  · simp [seen, submit, List.getElem?_append_left hlt, List.getElem?_eq_getElem hlt]
  · simp [seen, submit]

theorem seen_submit_after {R : Record X V} {k : Nat} (h : R.before.length < k) (target : X)
    (result : Option V) :
    (R.submit target result).seen k = Function.update R.now target result :=
  seen_of_le (by simpa [submit] using Nat.succ_le_of_lt h)

/-- The task leaves what is known of the other objects. -/
theorem of_seen_submit {R : Record X V} {k : Nat} {target x : X} {result : Option V} {v : V}
    (hne : x ≠ target) (h : (R.submit target result).seen k x = some v) :
    R.seen k x = some v := by
  rcases Nat.lt_or_ge R.before.length k with hlong | hshort
  · rw [seen_submit_after hlong, Function.update_of_ne hne] at h
    rwa [seen_of_le (Nat.le_of_lt hlong)]
  · rwa [seen_submit hshort] at h

theorem seen_write {R : Record X V} {k : Nat} (h : k < R.before.length) (x : X) (v : V) :
    (R.write x v).seen k = R.seen k := by
  simp [seen, write, List.getElem?_eq_getElem h]

/-- The record of the other objects is as it was. -/
theorem seen_write_of_ne (R : Record X V) (k : Nat) {x y : X} (h : y ≠ x) (v : V) :
    (R.write x v).seen k y = R.seen k y := by
  unfold seen write
  cases R.before[k]? with
  | none => exact Function.update_of_ne h _ _
  | some σ => rfl

/-- What is known after a write is the write, or was known before. -/
theorem of_seen_write {R : Record X V} {k : Nat} {x y : X} {v w : V}
    (hsince : (R.write x v).since y ≤ k) (hseen : (R.write x v).seen k y = some w) :
    y = x ∧ w = v ∨ y ≠ x ∧ R.since y ≤ k ∧ R.seen k y = some w := by
  by_cases hy : y = x
  · subst hy
    refine Or.inl ⟨rfl, ?_⟩
    have hk : R.before.length ≤ k := by simpa [write] using hsince
    rw [seen_of_le (R := R.write y v) hk] at hseen
    simpa [write, eq_comm] using hseen
  · refine Or.inr ⟨hy, ?_, by rwa [seen_write_of_ne R k hy] at hseen⟩
    simpa [write, Function.update_of_ne hy] using hsince

/-- Forgetting adds nothing. -/
theorem of_seen_forget {R : Record X V} {k : Nat} {x y : X} {v : V}
    (h : (R.forget x).seen k y = some v) : R.seen k y = some v := by
  unfold seen forget at *
  cases hbefore : R.before[k]? with
  | some σ => simpa [hbefore] using h
  | none =>
      rw [hbefore, Option.getD_none] at h
      by_cases hyx : y = x
      · subst hyx
        exact absurd h (by simp)
      · simpa [Function.update_of_ne hyx] using h

theorem seen_forget {R : Record X V} {k : Nat} (h : k < R.before.length) (x : X) :
    (R.forget x).seen k = R.seen k := by
  simp [seen, forget, List.getElem?_eq_getElem h]

end Record

/-! ### The record of a list of tasks -/

/-- On objects of which `σ` is known, the task leaves `v` in its target. -/
def Task.Yields (t : Task X V) (σ : X → Option V) (v : V) : Prop :=
  t.Separate ∧ ∃ τ : X → V, (∀ x ∈ t.operands, σ x = some (τ x)) ∧ t.fn (t.operands.map τ) = v

/-- The record has no more than what the tasks and the writes of the program leave. -/
structure Record.Follows (R : Record X V) (ts : List (Task X V)) : Prop where
  length : R.before.length = ts.length
  bound : ∀ x, R.since x ≤ ts.length
  next : ∀ (i : Nat) (t : Task X V) (v : V), ts[i]? = some t → R.since t.target ≤ i →
    R.seen (i + 1) t.target = some v → t.Yields (R.seen i) v
  frame : ∀ (i : Nat) (t : Task X V) (x : X) (v : V), ts[i]? = some t → t.target ≠ x →
    R.since x ≤ i → R.seen (i + 1) x = some v → R.seen i x = some v

namespace Record.Follows

variable {R : Record X V} {ts : List (Task X V)}

theorem nil : ({} : Record X V).Follows [] where
  length := rfl
  bound := fun _ => Nat.le_refl _
  next := fun _ _ _ h => absurd h (by simp)
  frame := fun _ _ _ _ h => absurd h (by simp)

/-- What no task between two positions writes was there at the first of them. -/
theorem back (hR : R.Follows ts) {x : X} {j k : Nat} (hjk : j ≤ k) (hsince : R.since x ≤ j)
    (hno : ∀ i t, ts[i]? = some t → j ≤ i → i < k → t.target ≠ x) {v : V}
    (hseen : R.seen k x = some v) : R.seen j x = some v := by
  induction k, hjk using Nat.le_induction with
  | base => exact hseen
  | succ k hjk ih =>
      refine ih (fun i t ht hji hik => hno i t ht hji (Nat.lt_succ_of_lt hik)) ?_
      cases ht : ts[k]? with
      | some t =>
          exact hR.frame k t x v ht (hno k t ht hjk (Nat.lt_succ_self k))
            (Nat.le_trans hsince hjk) hseen
      | none =>
          have hlen : R.before.length ≤ k := hR.length ▸ List.getElem?_eq_none_iff.mp ht
          rwa [seen_of_le hlen, ← seen_of_le (Nat.le_succ_of_le hlen)]

variable [DecidableEq X]

theorem submit (hR : R.Follows ts) {t : Task X V} {result : Option V}
    (hresult : ∀ v, result = some v → t.Yields R.now v) :
    (R.submit t.target result).Follows (ts ++ [t]) where
  length := by simp [Record.submit, hR.length]
  bound := fun x => Nat.le_trans (hR.bound x) (by simp)
  next := by
    intro i u v hu hsince hseen
    have hi : i ≤ R.before.length := by
      have := (List.getElem?_eq_some_iff.mp hu).1
      rw [List.length_append, List.length_singleton, ← hR.length] at this
      omega
    rw [seen_submit hi]
    rcases Nat.lt_or_eq_of_le hi with hlt | rfl
    · rw [List.getElem?_append_left (hR.length ▸ hlt)] at hu
      rw [seen_submit hlt] at hseen
      exact hR.next i u v hu hsince hseen
    · rw [hR.length, List.getElem?_concat_length, Option.some.injEq] at hu
      subst hu
      rw [seen_submit_after (Nat.lt_succ_self _), Function.update_self] at hseen
      rw [seen_of_le (Nat.le_refl _)]
      exact hresult v hseen
  frame := by
    intro i u x v hu hne hsince hseen
    have hi : i ≤ R.before.length := by
      have := (List.getElem?_eq_some_iff.mp hu).1
      rw [List.length_append, List.length_singleton, ← hR.length] at this
      omega
    rw [seen_submit hi]
    rcases Nat.lt_or_eq_of_le hi with hlt | rfl
    · rw [List.getElem?_append_left (hR.length ▸ hlt)] at hu
      rw [seen_submit hlt] at hseen
      exact hR.frame i u x v hu hne hsince hseen
    · rw [hR.length, List.getElem?_concat_length, Option.some.injEq] at hu
      subst hu
      rw [seen_submit_after (Nat.lt_succ_self _), Function.update_of_ne (Ne.symm hne)] at hseen
      rwa [seen_of_le (Nat.le_refl _)]

theorem write (hR : R.Follows ts) (x : X) (v : V) : (R.write x v).Follows ts where
  length := hR.length
  bound := by
    intro y
    show Function.update R.since x R.before.length y ≤ ts.length
    by_cases hy : y = x
    · rw [hy, Function.update_self, hR.length]
    · rw [Function.update_of_ne hy]
      exact hR.bound y
  next := by
    intro i t w ht hsince hseen
    have hi : i < R.before.length := hR.length ▸ (List.getElem?_eq_some_iff.mp ht).1
    by_cases htx : t.target = x
    · rw [show (R.write x v).since t.target = R.before.length by simp [Record.write, htx]] at hsince
      omega
    · rw [show (R.write x v).since t.target = R.since t.target from Function.update_of_ne htx _ _]
        at hsince
      rw [seen_write_of_ne R _ htx] at hseen
      rw [seen_write hi]
      exact hR.next i t w ht hsince hseen
  frame := by
    intro i t y w ht hne hsince hseen
    have hi : i < R.before.length := hR.length ▸ (List.getElem?_eq_some_iff.mp ht).1
    by_cases hyx : y = x
    · rw [show (R.write x v).since y = R.before.length by simp [Record.write, hyx]] at hsince
      omega
    · rw [show (R.write x v).since y = R.since y from Function.update_of_ne hyx _ _] at hsince
      rw [seen_write_of_ne R _ hyx] at hseen
      rw [seen_write hi]
      exact hR.frame i t y w ht hne hsince hseen

theorem forget (hR : R.Follows ts) (x : X) : (R.forget x).Follows ts where
  length := hR.length
  bound := hR.bound
  next := by
    intro i t v ht hsince hseen
    rw [seen_forget (hR.length ▸ (List.getElem?_eq_some_iff.mp ht).1)]
    exact hR.next i t v ht hsince (of_seen_forget hseen)
  frame := by
    intro i t y v ht hne hsince hseen
    rw [seen_forget (hR.length ▸ (List.getElem?_eq_some_iff.mp ht).1)]
    exact hR.frame i t y v ht hne hsince (of_seen_forget hseen)

end Record.Follows

/-! ### A runtime that keeps to a record -/

namespace Runtime

/-- The first `k` tasks are all that has happened to `h`. -/
def Settled (r : Runtime H N V) (h : H) (k : Nat) : Prop := (r.machine r.init).Settled h k

theorem settled_submit {r : Runtime H N V} {h : H} {k : Nat} {u : Task H V}
    (hk : (r.submit u).Settled h k) : r.Settled h k where
  before := fun j w hw htgt hjk => hk.before j w
    (Machine.getElem?_submit_old (s := r.machine r.init) u hw) htgt hjk
  after := fun j w hw htgt hkj => hk.after j w
    (Machine.getElem?_submit_old (s := r.machine r.init) u hw) htgt hkj

/-- The valid copies of the handle `h` of the object `x` hold what the record has. -/
def Recorded (r : Runtime H N V) (R : Record X V) (x : X) (h : H) : Prop :=
  ∀ k v, r.Settled h k → R.since x ≤ k → R.seen k x = some v →
    ∀ n ∈ r.valid h, r.copies h n = v

variable {ρ : X → Option H} {R : Record X V} {ts : List (Task X V)} {r r' : Runtime H N V}

theorem Recorded.of_later {x : X} {h : H} (hr : r.Recorded R x h)
    (hsettled : ∀ k, r'.Settled h k → r.Settled h k) (hvalid : r'.valid h = r.valid h)
    (hcopies : r'.copies h = r.copies h) : r'.Recorded R x h := by
  intro k v hk hsince hseen n hn
  rw [hcopies]
  exact hr k v (hsettled k hk) hsince hseen n (hvalid ▸ hn)

/-- A record that knows less is kept as well. -/
theorem Recorded.weaken {R' : Record X V} {x : X} {h : H} (hr : r.Recorded R x h)
    (hsince : R'.since x = R.since x)
    (hseen : ∀ k v, R'.seen k x = some v → R.seen k x = some v) : r.Recorded R' x h :=
  fun k v hk hle hk' => hr k v hk (hsince ▸ hle) (hseen k v hk')

/-- A running task finds in its operands what the record has for it. -/
theorem Recorded.operand (hordered : (r.machine r.init).Ordered) {i : Nat} {u : Task H V}
    (hu : r.tasks[i]? = some u) (hrun : r.Running i) {x : X} {h : H} (hr : r.Recorded R x h)
    (hh : h ∈ u.operands) (hself : u.target = h → u.update = true) (hsince : R.since x ≤ i)
    (hhere : r.place i ∈ r.valid h) {v : V} (hseen : R.seen i x = some v) :
    r.copies h (r.place i) = v :=
  hr i v (hordered.settled_operand hu hrun.1 hrun.2 hh hself) hsince hseen (r.place i) hhere

theorem Recorded.submit [DecidableEq X] {x : X} {h : H} (hr : r.Recorded R x h)
    (hlength : R.before.length = r.tasks.length) (hbound : ∀ i ∈ r.finished, i < r.tasks.length)
    {t : Task X V} {u : Task H V} (hne : x = t.target → h = u.target) (result : Option V) :
    (r.submit u).Recorded (R.submit t.target result) x h := by
  intro k v hk hsince hseen n hn
  have hold := settled_submit hk
  rcases Nat.lt_or_ge R.before.length k with hlong | hshort
  · -- The new task has not finished, so the object is not its target.
    have hxt : x ≠ t.target := by
      intro hxt
      have hnew : (r.submit u).tasks[r.tasks.length]? = some u := by simp [Runtime.submit]
      exact Nat.lt_irrefl _ (hbound _ (hk.before _ u hnew (hne hxt).symm (hlength ▸ hlong)))
    rw [Record.seen_submit_after hlong, Function.update_of_ne hxt] at hseen
    refine hr k v hold hsince ?_ n hn
    rw [Record.seen_of_le (Nat.le_of_lt hlong)]
    exact hseen
  · rw [Record.seen_submit hshort] at hseen
    exact hr k v hold hsince hseen n hn

/-! ### The steps of the workers -/

variable [DecidableEq H]

variable [DecidableEq N]

/-- A task that starts leaves the contents of its target alone, unless it replaces them. -/
theorem Recorded.start {x : X} {h : H} (hr : r.Recorded R x h) {i : Nat} {u : Task H V} {n : N}
    (junk : V) (hsub : r.finished ⊆ r.started) (hu : r.tasks[i]? = some u) (hnew : i ∉ r.started)
    (hhere : ∀ y ∈ u.operands, n ∈ r.valid y) : (r.start i u n junk).Recorded R x h := by
  intro k v hk hsince hseen p hp
  have hold : r.Settled h k := by
    refine ⟨hk.before, fun j w hw htgt hkj htouch => hk.after j w hw htgt hkj ?_⟩
    exact htouch.imp_right fun hst => ⟨Finset.mem_insert_of_mem hst.1, hst.2⟩
  by_cases hh : h = u.target
  · subst hh
    have hki : k ≤ i := by
      by_contra hlt
      exact hnew (hsub (hk.before i u hu rfl (Nat.lt_of_not_le hlt)))
    have hup : u.update = true := by
      by_contra hrep
      exact hk.after i u hu rfl hki
        (Or.inr ⟨Finset.mem_insert_self i r.started, Bool.eq_false_iff.mpr hrep⟩)
    have hhere' : n ∈ r.valid u.target := hhere _ (by simp [Task.operands, hup])
    have hpn : p = n := by simpa [Runtime.start] using hp
    rw [hpn]
    simpa [Runtime.start, hup] using hr k v hold hsince hseen n hhere'
  · have hcopies : (r.start i u n junk).copies h = r.copies h := by
      simp [Runtime.start, overwrite, Function.update_of_ne hh]
    have hvalid : (r.start i u n junk).valid h = r.valid h := by
      simp [Runtime.start, overwrite, Function.update_of_ne hh]
    rw [hcopies]
    exact hr k v hold hsince hseen p (hvalid ▸ hp)

variable {ρ : X → Option H} {ts : List (Task X V)}

/-- A task that finishes leaves in its target what the record has there. -/
theorem Recorded.finish (hordered : (r.machine r.init).Ordered)
    (hρ : Registry.Unshared ρ) (hnamed : List.Forall₂ (Task.Named ρ) ts r.tasks)
    (hR : R.Follows ts) {i : Nat} {t : Task X V} {u : Task H V} (ht : ts[i]? = some t)
    (hu : r.tasks[i]? = some u) (htu : t.Named ρ u) (hrun : r.Running i)
    (hhere : ∀ y ∈ u.operands, r.place i ∈ r.valid y)
    (hoperands : ∀ y ∈ t.operands, ∀ g, ρ y = some g → r.Recorded R y g)
    (hsince : ∀ y ∈ t.handles, R.since y ≤ i) {x : X} {h : H} (hx : ρ x = some h)
    (hr : r.Recorded R x h) : (r.finish i u).Recorded R x h := by
  intro k v hk hsincek hseen p hp
  by_cases hh : h = u.target
  · subst hh
    obtain rfl : x = t.target := hρ x t.target u.target hx htu.target
    have hik : i < k := by
      by_contra hge
      exact hk.after i u hu rfl (Nat.not_lt.mp hge) (Or.inl (Finset.mem_insert_self i r.finished))
    -- No writer of the target lies between `i` and `k`.
    have hlast : ∀ j w, ts[j]? = some w → i + 1 ≤ j → j < k → w.target ≠ t.target := by
      intro j w hw hij hjk htgt
      obtain ⟨w', hw', hww'⟩ := Fallible.forall₂_getElem?_left hnamed hw
      have htgt' : w'.target = u.target :=
        Option.some.inj (hww'.target.symm.trans (htgt ▸ htu.target))
      have hfin : j ∈ r.finished := by
        rcases Finset.mem_insert.mp (hk.before j w' hw' htgt' hjk) with rfl | hfin
        · omega
        · exact hfin
      exact hrun.2 (hordered.order j w' (hordered.sub hfin) hw' i u (by omega) hu
        (Task.conflict_of_target htgt' u.target_mem_handles).symm)
    have hle : R.since t.target ≤ i := hsince _ t.target_mem_handles
    obtain ⟨hseparate, τ, hτ, hvalue⟩ := hR.next i t v ht hle
      (hR.back hik (Nat.le_succ_of_le hle) hlast hseen)
    have hargs : t.operands.map τ = u.operands.map fun g => r.copies g (r.place i) := by
      refine Fallible.forall₂_map_eq htu.operands fun y hy g hg hyg => ?_
      exact (hoperands y hy g hyg i (τ y)
        (hordered.settled_operand hu hrun.1 hrun.2 hg ((htu.separate hρ hseparate).update hg))
        (hsince y (Task.operands_subset hy)) (hτ y hy) (r.place i) (hhere g hg)).symm
    have hpi : p = r.place i := by simpa [Runtime.finish] using hp
    rw [hpi, ← hvalue, hargs, ← htu.fn]
    simp [Runtime.finish]
  · have hcopies : (r.finish i u).copies h = r.copies h := by
      simp [Runtime.finish, overwrite, Function.update_of_ne hh]
    have hvalid : (r.finish i u).valid h = r.valid h := by
      simp [Runtime.finish, overwrite, Function.update_of_ne hh]
    have hold : r.Settled h k := by
      refine ⟨fun j w hw htgt hjk => ?_, fun j w hw htgt hkj htouch => ?_⟩
      · rcases Finset.mem_insert.mp (hk.before j w hw htgt hjk) with rfl | hfin
        · obtain rfl := Option.some.inj (hu.symm.trans hw)
          exact absurd htgt.symm hh
        · exact hfin
      · exact hk.after j w hw htgt hkj (htouch.imp_left (Finset.mem_insert_of_mem ·))
    rw [hcopies]
    exact hr k v hold hsincek hseen p (hvalid ▸ hp)

/-- **The workers keep to the record**: what is recorded of the objects that unfinished tasks
open stays so, and `P` may leave others out. -/
theorem Step.recorded (hstep : r.Step r') (hordered : (r.machine r.init).Ordered)
    (hpinned : ∀ i u, r.Running i → r.tasks[i]? = some u → ∀ g ∈ u.operands,
      r.place i ∈ r.valid g)
    (hρ : Registry.Unshared ρ) (hnamed : List.Forall₂ (Task.Named ρ) ts r.tasks)
    (hR : R.Follows ts) {P : X → Prop}
    (hopen : ∀ i t, ts[i]? = some t → i ∉ r.finished → ∀ x ∈ t.handles, P x ∧ R.since x ≤ i)
    (hrec : ∀ x h, ρ x = some h → P x → r.Recorded R x h) {x : X} {h : H} (hx : ρ x = some h)
    (hP : P x) : r'.Recorded R x h := by
  have hr := hrec x h hx hP
  cases hstep with
  | transfer y m n hm =>
      intro k v hk hsince hseen p hp
      have hcopies : ∀ q ∈ r.valid h, r.copies h q = v := hr k v hk hsince hseen
      by_cases hy : h = y
      · subst hy
        by_cases hpn : p = n
        · subst hpn
          simpa [Runtime.transfer] using hcopies m hm
        · have hp' : p ∈ r.valid h := by simpa [Runtime.transfer, hpn] using hp
          simpa [Runtime.transfer, Function.update_of_ne hpn] using hcopies p hp'
      · have hp' : p ∈ r.valid h := by simpa [Runtime.transfer, Function.update_of_ne hy] using hp
        simpa [Runtime.transfer, Function.update_of_ne hy] using hcopies p hp'
  | evict y n hother hidle =>
      intro k v hk hsince hseen p hp
      refine hr k v hk hsince hseen p ?_
      by_cases hy : h = y
      · subst hy
        exact (show p ∈ r.valid h \ {n} by simpa [Runtime.evict] using hp).1
      · simpa [Runtime.evict, Function.update_of_ne hy] using hp
  | start i u n junk hu hnew hready hhere => exact hr.start junk hordered.sub hu hnew hhere
  | finish i u hu hrun =>
      obtain ⟨t, ht, htu⟩ := Fallible.forall₂_getElem?_right hnamed hu
      have hopen := hopen i t ht hrun.2
      exact hr.finish hordered hρ hnamed hR ht hu htu hrun (hpinned i u hrun hu)
        (fun y hy g hg => hrec y g hg (hopen y (Task.operands_subset hy)).1)
        (fun y hy => (hopen y hy).2) hx

end Runtime

end TaskGraph
