/-
Tasks over shared handles, run one after another.

A task opens one handle for writing and any number of others for reading, and its
effect is a function of what it reads.  That is all a runtime that schedules tasks
by their data accesses gets to know about them, and it is enough to say when two
tasks have to be kept in order.

The handle a task writes is either *replaced* or *updated*.  A task that replaces
its target never sees what was there, so a runtime may hand it a buffer holding
anything; a task that updates its target reads the old content as one more
operand.

`runAll` is the meaning every schedule is compared with: the tasks one at a time,
in the order they were submitted.
-/
import Mathlib.Logic.Function.Basic
import Mathlib.Data.List.Basic
import Mathlib.Data.Nat.Init

namespace TaskGraph

variable {H V : Type*}

/-- One task: the handle it writes, the handles it only reads, and its effect. -/
structure Task (H V : Type*) where
  target : H
  /-- The target is opened for reading as well as for writing. -/
  update : Bool
  sources : List H
  /-- The new content of the target, from the contents of `operands` in order. -/
  fn : List V → V

namespace Task

/-- The handles whose contents the effect depends on. -/
def operands (t : Task H V) : List H :=
  if t.update then t.target :: t.sources else t.sources

/-- Every handle the task opens. -/
def handles (t : Task H V) : List H := t.target :: t.sources

/-- Two tasks share a handle that at least one of them writes. -/
def Conflict (a b : Task H V) : Prop := a.target ∈ b.handles ∨ b.target ∈ a.handles

/-- The written handle is not listed a second time among the read ones. -/
def Separate (t : Task H V) : Prop := t.target ∉ t.sources

/-- Run the task to completion on a store. -/
def apply [DecidableEq H] (t : Task H V) (σ : H → V) : H → V :=
  Function.update σ t.target (t.fn (t.operands.map σ))

theorem operands_subset {t : Task H V} {h : H} (hh : h ∈ t.operands) : h ∈ t.handles := by
  unfold operands at hh
  split at hh
  · exact hh
  · exact List.mem_cons_of_mem _ hh

theorem target_mem_handles (t : Task H V) : t.target ∈ t.handles := List.mem_cons_self ..

theorem Conflict.symm {a b : Task H V} (h : Conflict a b) : Conflict b a := Or.symm h

/-- A separate task reads its target only to update it. -/
theorem Separate.update {t : Task H V} (ht : t.Separate) {h : H} (hh : h ∈ t.operands)
    (htgt : t.target = h) : t.update = true := by
  by_contra hrep
  simp only [operands, hrep, if_false] at hh
  exact ht (htgt ▸ hh)

/-- A writer conflicts with every task that opens the handle it writes. -/
theorem conflict_of_target {a b : Task H V} {h : H} (ha : a.target = h) (hb : h ∈ b.handles) :
    Conflict a b := Or.inl (ha ▸ hb)

/-- What a task writes depends on its operands alone. -/
theorem fn_congr (t : Task H V) {σ τ : H → V} (h : ∀ x ∈ t.operands, σ x = τ x) :
    t.fn (t.operands.map σ) = t.fn (t.operands.map τ) := by
  rw [List.map_congr_left h]

variable [DecidableEq H]

@[simp] theorem apply_target (t : Task H V) (σ : H → V) :
    t.apply σ t.target = t.fn (t.operands.map σ) := by
  simp [apply]

/-- A task changes nothing but its target. -/
theorem apply_frame (t : Task H V) (σ : H → V) {h : H} (hh : t.target ≠ h) :
    t.apply σ h = σ h := by
  simp [apply, Function.update_of_ne (Ne.symm hh)]

end Task

/-- The prefix up to and including position `i` ends with the task at `i`. -/
theorem take_succ_of_getElem? {ts : List (Task H V)} {i : Nat} {t : Task H V}
    (ht : ts[i]? = some t) : ts.take (i + 1) = ts.take i ++ [t] := by
  rw [List.take_add_one, ht]
  rfl

variable [DecidableEq H]

/-- The tasks of a list one at a time, in order. -/
def runAll (ts : List (Task H V)) (σ : H → V) : H → V :=
  ts.foldl (fun τ t => t.apply τ) σ

@[simp] theorem runAll_nil (σ : H → V) : runAll [] σ = σ := rfl

@[simp] theorem runAll_cons (t : Task H V) (ts : List (Task H V)) (σ : H → V) :
    runAll (t :: ts) σ = runAll ts (t.apply σ) := rfl

theorem runAll_append (ts us : List (Task H V)) (σ : H → V) :
    runAll (ts ++ us) σ = runAll us (runAll ts σ) := by
  simp [runAll, List.foldl_append]

theorem runAll_concat (ts : List (Task H V)) (t : Task H V) (σ : H → V) :
    runAll (ts ++ [t]) σ = t.apply (runAll ts σ) := by
  rw [runAll_append]
  rfl

/-- A handle no task of the list writes keeps its content. -/
theorem runAll_frame (ts : List (Task H V)) (σ : H → V) {h : H}
    (hh : ∀ t ∈ ts, t.target ≠ h) : runAll ts σ h = σ h := by
  induction ts generalizing σ with
  | nil => rfl
  | cons t rest ih =>
      rw [runAll_cons, ih (t.apply σ) (fun u hu => hh u (by simp [hu])),
        t.apply_frame σ (hh t (by simp))]

/-- What the tasks leave in the handles of a set depends on that set alone, if they open no
other handle. -/
theorem runAll_congr (ts : List (Task H V)) {σ τ : H → V} {P : H → Prop}
    (hopen : ∀ t ∈ ts, ∀ h ∈ t.handles, P h) (hagree : ∀ h, P h → σ h = τ h) :
    ∀ h, P h → runAll ts σ h = runAll ts τ h := by
  induction ts generalizing σ τ with
  | nil => exact hagree
  | cons t rest ih =>
      refine ih (fun u hu => hopen u (by simp [hu])) ?_
      intro h hP
      show t.apply σ h = t.apply τ h
      by_cases ht : t.target = h
      · subst ht
        rw [t.apply_target, t.apply_target]
        exact t.fn_congr fun y hy => hagree y (hopen t (by simp) y (Task.operands_subset hy))
      · rw [t.apply_frame σ ht, t.apply_frame τ ht, hagree h hP]

/-- The content of a handle no task of the list opens is invisible to the others. -/
theorem runAll_init_congr (ts : List (Task H V)) {σ τ : H → V} {x : H}
    (hfresh : ∀ t ∈ ts, x ∉ t.handles) (hagree : ∀ h, h ≠ x → σ h = τ h) :
    ∀ h, h ≠ x → runAll ts σ h = runAll ts τ h := by
  refine runAll_congr ts (fun t ht h hh => ?_) hagree
  rintro rfl
  exact hfresh t ht hh

/-- Between two positions no task writes `h`, so both prefixes leave it the same. -/
theorem runAll_take_eq {ts : List (Task H V)} {σ : H → V} {h : H} {k m : Nat} (hkm : k ≤ m)
    (hno : ∀ j t, ts[j]? = some t → k ≤ j → j < m → t.target ≠ h) :
    runAll (ts.take m) σ h = runAll (ts.take k) σ h := by
  induction m, hkm using Nat.le_induction with
  | base => rfl
  | succ m hkm ih =>
      have ih := ih fun j t ht hkj hjm => hno j t ht hkj (Nat.lt_succ_of_lt hjm)
      cases ht : ts[m]? with
      | none =>
          rw [List.take_add_one, ht, ← ih]
          simp
      | some t =>
          rw [take_succ_of_getElem? ht, runAll_concat, ← ih]
          exact t.apply_frame _ (hno m t ht hkm (Nat.lt_succ_self m))

end TaskGraph
