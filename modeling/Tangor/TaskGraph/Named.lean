/-
Tasks over names, and tasks over the handles the names stand for.

A program speaks of objects; a runtime knows handles it gave out for them, one object
after the other.  `ρ` is the registry between the two: which handle, if any, stands for
an object.  A task over handles is `Named` after a task over objects when it opens the
handles of the same objects and computes the same.

As long as no two objects share a handle, running one list and running the other give
corresponding contents, and tasks conflict on one side when they do on the other.
-/
import Tangor.TaskGraph.Task
import Tangor.Fallible

namespace TaskGraph

variable {X H V : Type*}

/-- No two objects have the same handle. -/
def Registry.Unshared (ρ : X → Option H) : Prop := ∀ x y h, ρ x = some h → ρ y = some h → x = y

/-- `u` is the task `t` with every object replaced by its handle. -/
structure Task.Named (ρ : X → Option H) (t : Task X V) (u : Task H V) : Prop where
  target : ρ t.target = some u.target
  update : u.update = t.update
  sources : List.Forall₂ (fun x h => ρ x = some h) t.sources u.sources
  fn : u.fn = t.fn

namespace Task

variable {ρ : X → Option H} {t : Task X V} {u : Task H V}

/-- Objects that have a handle keep it. -/
theorem Named.mono {ρ' : X → Option H} (hn : t.Named ρ u)
    (h : ∀ x k, ρ x = some k → ρ' x = some k) :
    t.Named ρ' u where
  target := h _ _ hn.target
  update := hn.update
  sources := hn.sources.imp fun x k => h x k
  fn := hn.fn

theorem Named.handles (hn : t.Named ρ u) :
    List.Forall₂ (fun x h => ρ x = some h) t.handles u.handles :=
  List.Forall₂.cons hn.target hn.sources

theorem Named.operands (hn : t.Named ρ u) :
    List.Forall₂ (fun x h => ρ x = some h) t.operands u.operands := by
  unfold Task.operands
  rw [hn.update]
  split
  · exact hn.handles
  · exact hn.sources

variable {s : Task X V} {v : Task H V}

/-- Tasks that share an object share its handle. -/
theorem Named.conflict (hn : t.Named ρ u) (hm : s.Named ρ v) (hc : t.Conflict s) :
    u.Conflict v := by
  have hone : ∀ {a b : Task X V} {a' b' : Task H V}, a.Named ρ a' → b.Named ρ b' →
      a.target ∈ b.handles → a'.target ∈ b'.handles := by
    intro a b a' b' ha hb hab
    obtain ⟨h, hh, hab⟩ := Fallible.forall₂_mem_left hb.handles hab
    rw [ha.target, Option.some.injEq] at hab
    rwa [hab]
  exact hc.imp (hone hn hm) (hone hm hn)

theorem Named.separate (hρ : Registry.Unshared ρ) (hn : t.Named ρ u) (ht : t.Separate) :
    u.Separate := by
  intro hmem
  obtain ⟨x, hx, hxh⟩ := Fallible.forall₂_mem_right hn.sources hmem
  exact ht (hρ t.target x u.target hn.target hxh ▸ hx)

variable [DecidableEq X] [DecidableEq H]

/-- Corresponding contents stay so when corresponding tasks run. -/
theorem Named.apply (hρ : Registry.Unshared ρ) (hn : t.Named ρ u) {σ : X → V} {τ : H → V}
    (h : ∀ x k, ρ x = some k → τ k = σ x) :
    ∀ x k, ρ x = some k → u.apply τ k = t.apply σ x := by
  intro x k hx
  by_cases hk : k = u.target
  · have hxt : x = t.target := hρ x t.target k hx (hk ▸ hn.target)
    have hargs : t.operands.map σ = u.operands.map τ :=
      Fallible.forall₂_map_eq hn.operands fun y _ k _ hy => (h y k hy).symm
    rw [hk, hxt, u.apply_target, t.apply_target, ← hargs, hn.fn]
  · have hxt : t.target ≠ x := by
      rintro rfl
      rw [hn.target, Option.some.injEq] at hx
      exact hk hx.symm
    rw [u.apply_frame τ (Ne.symm hk), t.apply_frame σ hxt]
    exact h x k hx

end Task

variable [DecidableEq X] [DecidableEq H]

/-- **Running tasks over handles is running the tasks over objects they are named
after.** -/
theorem runAll_named {ρ : X → Option H} (hρ : Registry.Unshared ρ) {ts : List (Task X V)}
    {us : List (Task H V)} (hall : List.Forall₂ (Task.Named ρ) ts us) {σ : X → V} {τ : H → V}
    (h : ∀ x k, ρ x = some k → τ k = σ x) :
    ∀ x k, ρ x = some k → runAll us τ k = runAll ts σ x := by
  induction hall generalizing σ τ with
  | nil => exact h
  | cons hn _ ih => exact ih (hn.apply hρ h)

end TaskGraph
