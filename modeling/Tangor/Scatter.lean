/-
Copying an array into another layout, one element at a time.

A loop nest writes one element of the target a round, read from an index of the source.
An index outside its array has no defined effect, so both index computations may fail, and
`scatter` fails with them.  If no two rounds write one target with different contents, the
order of the loops does not matter: `scatter_get` and `scatter_frame` say what is in the
target afterwards.

`LaidOut` is what a layout is for: every word of the source has its own position, and the
positions without a word hold 0.
-/
import Mathlib.Data.Option.Basic
import Mathlib.Logic.Function.Basic
import Mathlib.Algebra.Notation.Defs
import Mathlib.Tactic.Ring

namespace Scatter

variable {ι κ α : Type*}

section Loop

variable [DecidableEq κ]

/-- The rounds `is`, each of which reads `src` and writes `dst`. -/
def scatter (dst : ι → Option κ) (src : ι → Option α) (is : List ι) (f : κ → α) :
    Option (κ → α) :=
  is.foldlM (fun f i => (dst i).bind fun k => (src i).map (Function.update f k)) f

variable {dst : ι → Option κ} {src : ι → Option α} {i : ι} {is : List ι} {f g : κ → α} {k : κ}

@[simp] theorem scatter_nil : scatter dst src [] f = some f := rfl

theorem scatter_cons {v : α} (hk : dst i = some k) (hv : src i = some v) :
    scatter dst src (i :: is) f = scatter dst src is (Function.update f k v) := by
  simp [scatter, hk, hv]

/-- A loop that gets through has had defined indices in its first round. -/
theorem scatter_cons_eq_some (h : scatter dst src (i :: is) f = some g) :
    ∃ k v, dst i = some k ∧ src i = some v ∧
      scatter dst src is (Function.update f k v) = some g := by
  cases hk : dst i with
  | none => simp [scatter, hk] at h
  | some k =>
      cases hv : src i with
      | none => simp [scatter, hk, hv] at h
      | some v => exact ⟨k, v, rfl, rfl, by rwa [scatter_cons hk hv] at h⟩

/-- The loop gets through exactly when every index is inside its array. -/
theorem scatter_isSome :
    (scatter dst src is f).isSome ↔ ∀ i ∈ is, (dst i).isSome ∧ (src i).isSome := by
  induction is generalizing f with
  | nil => simp
  | cons i is ih =>
      constructor
      · intro h
        obtain ⟨g, hg⟩ := Option.isSome_iff_exists.mp h
        obtain ⟨k, v, hk, hv, hrest⟩ := scatter_cons_eq_some hg
        intro j hj
        rcases List.mem_cons.mp hj with rfl | hj
        · simp [hk, hv]
        · exact ih.mp (Option.isSome_iff_exists.mpr ⟨g, hrest⟩) j hj
      · intro h
        obtain ⟨hdst, hsrc⟩ := h i List.mem_cons_self
        obtain ⟨k, hk⟩ := Option.isSome_iff_exists.mp hdst
        obtain ⟨v, hv⟩ := Option.isSome_iff_exists.mp hsrc
        rw [scatter_cons hk hv]
        exact ih.mpr fun j hj => h j (List.mem_cons_of_mem _ hj)

/-- What no round writes stays. -/
theorem scatter_frame (h : scatter dst src is f = some g) (hk : ∀ i ∈ is, dst i ≠ some k) :
    g k = f k := by
  induction is generalizing f with
  | nil =>
      obtain rfl : f = g := by simpa using h
      rfl
  | cons i is ih =>
      obtain ⟨k', v, hk', -, hrest⟩ := scatter_cons_eq_some h
      have hne : k ≠ k' := fun heq => hk i List.mem_cons_self (heq ▸ hk')
      rw [ih hrest fun j hj => hk j (List.mem_cons_of_mem _ hj), Function.update_of_ne hne]

/-- Where the rounds that write one target read the same, that is what is found there. -/
theorem scatter_get (h : scatter dst src is f = some g)
    (hsame : ∀ i ∈ is, ∀ j ∈ is, dst i = dst j → src i = src j) (hi : i ∈ is)
    (hk : dst i = some k) : src i = some (g k) := by
  induction is generalizing f i with
  | nil => exact absurd hi List.not_mem_nil
  | cons j is ih =>
      obtain ⟨k', v, hk', hv, hrest⟩ := scatter_cons_eq_some h
      have hsame' : ∀ i ∈ is, ∀ j ∈ is, dst i = dst j → src i = src j := fun i hi j hj =>
        hsame i (List.mem_cons_of_mem _ hi) j (List.mem_cons_of_mem _ hj)
      rcases List.mem_cons.mp hi with rfl | hi
      · -- A later round may write the target again, with the same content.
        by_cases hlater : ∃ j ∈ is, dst j = some k
        · obtain ⟨j, hj, hjk⟩ := hlater
          rw [hsame i List.mem_cons_self j (List.mem_cons_of_mem _ hj) (hk.trans hjk.symm)]
          exact ih hrest hsame' hj hjk
        · rw [scatter_frame hrest fun j hj hjk => hlater ⟨j, hj, hjk⟩]
          obtain rfl : k' = k := by simpa [hk] using hk'.symm
          rw [Function.update_self, hv]
      · exact ih hrest hsame' hi hk

end Loop

/-- `f` is `words` laid out: the word at a position is the one the position's index stands
for, every word has one position, and the other positions hold 0. -/
structure LaidOut [Zero α] (source : κ → Option ι) (position : ι → κ) (words : ι → α)
    (f : κ → α) : Prop where
  recover : ∀ p x, source p = some x ↔ p = position x
  word : ∀ x, f (position x) = words x
  padding : ∀ p, source p = none → f p = 0

/-- **A loop whose indices are all defined lays the words out**, if each round writes a
position that stands for what it reads, and every position that stands for a word is
written. -/
theorem scatter_laidOut {ρ : Type*} [DecidableEq κ] [Zero α] {dst : ρ → Option κ}
    {read : ρ → Option ι} {rounds : List ρ} {source : κ → Option ι} {position : ι → κ}
    (words : ι → α) (hdst : ∀ r ∈ rounds, (dst r).isSome) (hread : ∀ r ∈ rounds, (read r).isSome)
    (hsource : ∀ r ∈ rounds, ∀ p, dst r = some p → source p = read r)
    (hcover : ∀ p, ∃ r ∈ rounds, dst r = some p)
    (hrecover : ∀ p x, source p = some x ↔ p = position x) :
    ∃ f, scatter dst (fun r => (read r).map words) rounds (fun _ => 0) = some f ∧
      LaidOut source position words f := by
  have hsome : (scatter dst (fun r => (read r).map words) rounds (fun _ => 0)).isSome :=
    scatter_isSome.mpr fun r hr => ⟨hdst r hr, by simpa using hread r hr⟩
  obtain ⟨f, hf⟩ := Option.isSome_iff_exists.mp hsome
  refine ⟨f, hf, hrecover, ?_, ?_⟩
  · intro x
    obtain ⟨r, hr, hp⟩ := hcover (position x)
    have hx : read r = some x := hsource r hr _ hp ▸ (hrecover _ x).mpr rfl
    have hget := scatter_get hf (fun i hi j hj hij => ?_) hr hp
    · simpa [hx] using hget.symm
    · obtain ⟨p, hi'⟩ := Option.isSome_iff_exists.mp (hdst i hi)
      rw [← hsource i hi p hi', ← hsource j hj p (hij ▸ hi')]
  · intro p hp
    refine scatter_frame hf fun r hr hdstr => ?_
    obtain ⟨x, hx⟩ := Option.isSome_iff_exists.mp (hread r hr)
    rw [hsource r hr p hdstr, hx] at hp
    exact absurd hp (Option.some_ne_none x)

/-! ### Indices of three digits -/

section Digits

variable {n m l M L : Nat}

theorem digits_lt {N : Nat} (hn : n < N) (hm : m < M) (hl : l < L) :
    n * M * L + m * L + l < N * M * L := by
  have hnm : n * M + m < N * M := by
    calc n * M + m < n * M + M := Nat.add_lt_add_left hm _
      _ = (n + 1) * M := by ring
      _ ≤ N * M := Nat.mul_le_mul_right M hn
  calc n * M * L + m * L + l = (n * M + m) * L + l := by ring
    _ < (n * M + m) * L + L := Nat.add_lt_add_left hl _
    _ = (n * M + m + 1) * L := by ring
    _ ≤ N * M * L := Nat.mul_le_mul_right L hnm

/-- The digits of an index. -/
theorem eq_digits (hm : m < M) (hl : l < L) {i : Nat} :
    n * M * L + m * L + l = i ↔ n = i / (M * L) ∧ m = i / L % M ∧ l = i % L := by
  constructor
  · rintro rfl
    have hL : 0 < L := Nat.zero_lt_of_lt hl
    have hM : 0 < M := Nat.zero_lt_of_lt hm
    have hsum : n * M * L + m * L + l = l + L * (m + M * n) := by ring
    rw [hsum, Nat.add_mul_mod_self_left, Nat.mod_eq_of_lt hl, Nat.add_mul_div_left _ _ hL,
      Nat.div_eq_of_lt hl, Nat.zero_add, Nat.add_mul_mod_self_left, Nat.mod_eq_of_lt hm,
      Nat.mul_comm M L, ← Nat.div_div_eq_div_mul, Nat.add_mul_div_left _ _ hL,
      Nat.div_eq_of_lt hl, Nat.zero_add, Nat.add_mul_div_left _ _ hM, Nat.div_eq_of_lt hm]
    simp
  · rintro ⟨rfl, rfl, rfl⟩
    have hdiv : i / (M * L) = i / L / M := by rw [Nat.mul_comm M L, Nat.div_div_eq_div_mul]
    calc i / (M * L) * M * L + i / L % M * L + i % L
        = (M * (i / L / M) + i / L % M) * L + i % L := by rw [hdiv]; ring
      _ = i := by rw [Nat.div_add_mod, Nat.mul_comm, Nat.div_add_mod]

end Digits

end Scatter
