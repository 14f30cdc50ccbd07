/-
Numbers on a discretised torus.

A `w`-bit word stands for a number modulo `2 ^ w`, and is read as the signed number of
its class that lies closest to zero.  `toInt_pos` and `toInt_neg` find the sign of a
number on any of its representatives.

A sample is a vector of ring elements whose last coordinate is the body; its phase under
a key is the body without what the key takes from the other coordinates.  The phase is
linear, so what is done to samples is read off the phases, and errors add up.
-/
import Mathlib

namespace Torus

/-! ### Signs of words -/

section Words

variable {w : Nat} {v : Int}

/-- A word is read as the representative within half the range of 0. -/
theorem toInt_eq (k : Int) (hlo : -2 ^ w ≤ 2 * (v + k * 2 ^ w))
    (hhi : 2 * (v + k * 2 ^ w) < 2 ^ w) : ((v : BitVec w)).toInt = v + k * 2 ^ w := by
  have hcast : ((2 ^ w : Nat) : Int) = 2 ^ w := by push_cast; rfl
  rw [BitVec.toInt_intCast, ← Int.add_mul_bmod_self_right v k (2 ^ w), hcast]
  refine Int.bmod_eq_of_le_mul_two ?_ ?_
  · rw [hcast, mul_comm]
    exact hlo
  · rw [hcast, mul_comm]
    exact hhi

theorem toInt_pos (k : Int) (hlo : 0 < v + k * 2 ^ w) (hhi : 2 * (v + k * 2 ^ w) < 2 ^ w) :
    0 < ((v : BitVec w)).toInt := by
  rw [toInt_eq k (by omega) hhi]
  exact hlo

theorem toInt_neg (k : Int) (hlo : -2 ^ w ≤ 2 * (v + k * 2 ^ w)) (hhi : v + k * 2 ^ w < 0) :
    ((v : BitVec w)).toInt < 0 := by
  have hpow : (0 : Int) < 2 ^ w := Int.pow_pos (by decide)
  rw [toInt_eq k hlo (by omega)]
  exact hhi

end Words

/-! ### Errors -/

section Near

variable {R : Type*} [CommRing R] {x y u v : R} {B C : Int}

/-- An error of at most `B` is all that lies between `v` and `x`. -/
def Near (B : Int) (v x : R) : Prop := ∃ e : Int, |e| ≤ B ∧ x = v + e

theorem Near.nonneg (hx : Near B v x) : 0 ≤ B := by
  obtain ⟨e, he, -⟩ := hx
  exact (abs_nonneg e).trans he

theorem Near.weaken (hx : Near B v x) (h : B ≤ C) : Near C v x := by
  obtain ⟨e, he, heq⟩ := hx
  exact ⟨e, he.trans h, heq⟩

theorem Near.add (hx : Near B u x) (hy : Near C v y) : Near (B + C) (u + v) (x + y) := by
  obtain ⟨d, hd, rfl⟩ := hx
  obtain ⟨e, he, rfl⟩ := hy
  refine ⟨d + e, (abs_add_le d e).trans (add_le_add hd he), ?_⟩
  push_cast
  ring

theorem Near.add_right (hx : Near B u x) (c : R) : Near B (u + c) (x + c) := by
  obtain ⟨e, he, rfl⟩ := hx
  exact ⟨e, he, by ring⟩

end Near

/-! ### Phases -/

section Phase

variable {R : Type*} [CommRing R] {n : Nat}

/-- The body of a sample without what the key takes from the other coordinates. -/
def phase (key : Fin n → R) : (Fin (n + 1) → R) →+ R where
  toFun c := c (Fin.last n) - ∑ i, c i.castSucc * key i
  map_zero' := by simp
  map_add' c d := by
    simp only [Pi.add_apply, add_mul, Finset.sum_add_distrib]
    ring

/-- The sample that holds `b` in the clear. -/
def trivial (b : R) : Fin (n + 1) → R := Pi.single (Fin.last n) b

@[simp] theorem phase_trivial (key : Fin n → R) (b : R) : phase key (trivial b) = b := by
  simp [phase, trivial]

/-- A constant on the body is a sample in the clear. -/
theorem update_last (c : Fin (n + 1) → R) (b : R) :
    Function.update c (Fin.last n) (c (Fin.last n) + b) = c + trivial b := by
  ext i
  by_cases hi : i = Fin.last n
  · subst hi
    simp [trivial]
  · simp [trivial, Function.update_of_ne hi, Pi.single_eq_of_ne hi]

end Phase

end Torus
