/-
The two tables of two-input gates are right under noise.

A gate is right when the combination it bootstraps is positive where the gate is true and
negative where it is false, for any errors below half of `μ` on the operands.  Without the
errors the combination is a number of `μ`s, found by evaluating the table; `Margin` says
that the errors, scaled by the signs, take it neither to 0 nor across the half torus.  The
tables have a margin everywhere, and a margin is enough for every word width.
-/
import Tangor.WrappedCodelets
import Tangor.IyokanThreads
import Tangor.Proofs.Represents

namespace Tangor

open Torus YosysJSONparser

/-! ### What the gates mean -/

def WrappedGate.eval : WrappedGate → Bool → Bool → Bool
  | .clHomNAND, a, b => !(a && b)
  | .clHomNOR, a, b => !(a || b)
  | .clHomXNOR, a, b => !(a ^^ b)
  | .clHomAND, a, b => a && b
  | .clHomOR, a, b => a || b
  | .clHomXOR, a, b => a ^^ b
  | .clHomANDNY, a, b => !a && b
  | .clHomANDYN, a, b => a && !b
  | .clHomORNY, a, b => !a || b
  | .clHomORYN, a, b => a || !b

/-- The netlist type the gate is named after. -/
def Iyokan.IyokanBinaryGate.gateType : Iyokan.IyokanBinaryGate → GateType
  | .AND => .AND
  | .NAND => .NAND
  | .ANDNOT => .ANDNOT
  | .OR => .OR
  | .NOR => .NOR
  | .ORNOT => .ORNOT
  | .XOR => .XOR
  | .XNOR => .XNOR

/-- The values of the pins of a two-input gate. -/
def pinValues (a b : Bool) : Pin → Bool
  | .B => b
  | _ => a

def Iyokan.IyokanBinaryGate.eval (gate : Iyokan.IyokanBinaryGate) (a b : Bool) : Bool :=
  gate.gateType.eval (pinValues a b)

/-- `true` is `+μ` and `false` is `-μ`. -/
def encode (μ : Int) (b : Bool) : Int := if b then μ else -μ

/-- The word is positive when `b` is true, and negative when it is false. -/
def Signals {w : Nat} (b : Bool) (x : BitVec w) : Prop :=
  if b then 0 < x.toInt else x.toInt < 0

/-! ### Margins -/

/-- Without errors the combination is, up to a multiple of 8 and in multiples of `μ`, on the
side of `t`, and half the weight of the errors away from both 0 and 4. -/
def Margin (parameters : Int × Int × Int) (a b t : Bool) : Prop :=
  let (casign, cbsign, offset) := parameters
  ∃ k ∈ ([0, 1, -1] : List Int),
    let v := casign * encode 1 a + cbsign * encode 1 b + offset + k * 8
    let weight := |casign| + |cbsign|
    0 < weight ∧ weight ≤ 2 * encode v t ∧ 2 * encode v t + weight ≤ 8

instance (parameters : Int × Int × Int) (a b t : Bool) : Decidable (Margin parameters a b t) :=
  inferInstanceAs (Decidable (∃ k ∈ _, _))

theorem WrappedGate.margin (gate : WrappedGate) (a b : Bool) :
    Margin gate.parameters a b (gate.eval a b) := by
  cases gate <;> revert a b <;> decide

theorem Iyokan.IyokanBinaryGate.margin (gate : Iyokan.IyokanBinaryGate) (a b : Bool) :
    Margin gate.parameters a b (gate.eval a b) := by
  cases gate <;> revert a b <;> decide

theorem encode_eq_mul (m : Int) (b : Bool) : encode m b = encode 1 b * m := by
  cases b <;> simp [encode]

theorem two_mul_error_le {c e m : Int} (h : 2 * |e| < m) : 2 * |c * e| ≤ |c| * (m - 1) := by
  have hmul := mul_le_mul_of_nonneg_left (Int.le_sub_one_of_lt h) (abs_nonneg c)
  rw [abs_mul]
  linarith

/-- What the errors add to the combination is less than half of their weight. -/
theorem two_mul_errors_lt {c d e₁ e₂ m : Int} (h₁ : 2 * |e₁| < m) (h₂ : 2 * |e₂| < m)
    (hweight : 0 < |c| + |d|) : 2 * |c * e₁ + d * e₂| < (|c| + |d|) * m := by
  have hc := two_mul_error_le (c := c) h₁
  have hd := two_mul_error_le (c := d) h₂
  have hsum := abs_add_le (c * e₁) (d * e₂)
  linarith

theorem two_pow_eq {w : Nat} (hw : 3 ≤ w) : (2 : Int) ^ w = 8 * μ w := by
  rw [μ, show (8 : Int) = 2 ^ 3 by norm_num, ← pow_add, Nat.add_sub_cancel' hw]

theorem μ_pos (w : Nat) : 0 < μ w := Int.pow_pos (by decide)

/-- **A margin is enough**, for words of any width and for any errors below half of `μ`. -/
theorem signals_of_margin {w : Nat} (hw : 3 ≤ w) {parameters : Int × Int × Int} {a b t : Bool}
    (hmargin : Margin parameters a b t) {e₁ e₂ : Int} (h₁ : 2 * |e₁| < μ w)
    (h₂ : 2 * |e₂| < μ w) :
    Signals t (combination parameters (μ w) (encode (μ w) a + e₁) (encode (μ w) b + e₂) :
      BitVec w) := by
  obtain ⟨casign, cbsign, offset⟩ := parameters
  obtain ⟨k, -, hweight, hlo, hhi⟩ := hmargin
  have hpow := two_pow_eq hw
  have hpos := μ_pos w
  have herror := two_mul_errors_lt h₁ h₂ hweight
  set v := casign * encode 1 a + cbsign * encode 1 b + offset + k * 8 with hv
  have hvalue : combination (casign, cbsign, offset) (μ w) (encode (μ w) a + e₁)
      (encode (μ w) b + e₂) + k * 2 ^ w = v * μ w + (casign * e₁ + cbsign * e₂) := by
    simp only [combination]
    rw [encode_eq_mul _ a, encode_eq_mul _ b, hpow, hv]
    ring
  have habs := abs_lt.mp (show |2 * (casign * e₁ + cbsign * e₂)| <
    (|casign| + |cbsign|) * μ w by rwa [abs_mul, abs_two])
  cases t with
  | true =>
      have hlow := mul_le_mul_of_nonneg_right hlo hpos.le
      have hhigh := mul_le_mul_of_nonneg_right hhi hpos.le
      simp only [encode, if_true] at hlow hhigh
      refine toInt_pos k ?_ ?_ <;> rw [hvalue]
      · linarith [habs.1]
      · linarith [habs.2]
  | false =>
      have hlow := mul_le_mul_of_nonneg_right hlo hpos.le
      have hhigh := mul_le_mul_of_nonneg_right hhi hpos.le
      simp only [encode, Bool.false_eq_true, if_false] at hlow hhigh
      refine toInt_neg k ?_ ?_ <;> rw [hvalue]
      · linarith [habs.1]
      · linarith [habs.2]

/-- A small error does not change the sign. -/
theorem signals_of_near {w : Nat} (hw : 3 ≤ w) {b : Bool} {x : BitVec w} {B : Int}
    (hB : 2 * B < μ w) (hx : Near B ((encode (μ w) b : Int) : BitVec w) x) : Signals b x := by
  obtain ⟨e, he, rfl⟩ := hx
  have hpow := two_pow_eq hw
  have habs := abs_le.mp he
  rw [← Int.cast_add]
  cases b with
  | true => exact toInt_pos 0 (by simp [encode]; omega) (by simp [encode]; omega)
  | false => exact toInt_neg 0 (by simp [encode]; omega) (by simp [encode]; omega)

/-- The negated word holds the negated bit, with the same error. -/
theorem near_neg {w : Nat} {b : Bool} {x : BitVec w} {B : Int}
    (hx : Near B ((encode (μ w) b : Int) : BitVec w) x) :
    Near B ((encode (μ w) (!b) : Int) : BitVec w) (-x) := by
  obtain ⟨e, he, rfl⟩ := hx
  refine ⟨-e, by rwa [abs_neg], ?_⟩
  cases b <;> simp [encode] <;> ring

/-! ### The tables -/

theorem signals_true {w : Nat} {b : Bool} {x : BitVec w} (h : Signals b x) :
    0 < x.toInt ↔ b = true := by
  cases b with
  | true => exact iff_of_true h rfl
  | false => exact iff_of_false (not_lt_of_gt (show _ < (0 : Int) from h)) nofun

/-- The sign decides the bit. -/
theorem decide_sign {w : Nat} {b : Bool} {x : BitVec w} (h : Signals b x) :
    decide (0 < x.toInt) = b := by
  cases b with
  | true => exact decide_eq_true h
  | false => exact decide_eq_false (not_lt_of_gt h)

/-- The parser's name for a netlist type is that of a codelet with the same meaning. -/
theorem eval_of_gateName {gate : Iyokan.IyokanBinaryGate} {wrapped : WrappedGate}
    (hname : gateNameOf gate.gateType.typeName = .ok wrapped.name) (a b : Bool) :
    wrapped.eval a b = gate.eval a b := by
  rw [gateNameOf_typeName, Except.ok.injEq] at hname
  cases gate <;> cases wrapped <;>
    first | rfl | exact absurd hname (by decide)

/-- **The combination every codelet of either table bootstraps has the sign of its gate**,
for words of any width and for any errors below half of `μ`.  So a netlist type means the
same to the two tables, under the name the parser gives it. -/
theorem gate_tables {w : Nat} (hw : 4 ≤ w) (a b : Bool) {e₁ e₂ : Int} (h₁ : 2 * |e₁| < μ w)
    (h₂ : 2 * |e₂| < μ w) :
    let value (parameters : Int × Int × Int) : BitVec w :=
      combination parameters (μ w) (encode (μ w) a + e₁) (encode (μ w) b + e₂)
    (∀ gate : WrappedGate, Signals (gate.eval a b) (value gate.parameters)) ∧
    (∀ gate : Iyokan.IyokanBinaryGate, Signals (gate.eval a b) (value gate.parameters)) ∧
    ∀ (gate : Iyokan.IyokanBinaryGate) (wrapped : WrappedGate),
      gateNameOf gate.gateType.typeName = .ok wrapped.name →
      (∀ v : Pin → Bool, gate.gateType.eval v = wrapped.eval (v .A) (v .B)) ∧
      (0 < (value wrapped.parameters).toInt ↔ 0 < (value gate.parameters).toInt) := by
  intro value
  have hwidth : 3 ≤ w := Nat.le_of_succ_le hw
  have hwrapped : ∀ gate : WrappedGate, Signals (gate.eval a b) (value gate.parameters) :=
    fun gate => signals_of_margin hwidth (gate.margin a b) h₁ h₂
  have hiyokan : ∀ gate : Iyokan.IyokanBinaryGate,
      Signals (gate.eval a b) (value gate.parameters) :=
    fun gate => signals_of_margin hwidth (gate.margin a b) h₁ h₂
  refine ⟨hwrapped, hiyokan, fun gate wrapped hname => ⟨fun v => ?_, ?_⟩⟩
  · rw [eval_of_gateName hname]
    cases gate <;> rfl
  · rw [signals_true (hwrapped wrapped), signals_true (hiyokan gate), eval_of_gateName hname]

/-- `XOR` of two true operands of 32 bits with errors close to the bound; the sum leaves the
signed range. -/
theorem gate_tables_xor :
    Signals false (combination (2, 2, 2) (μ 32) (encode (μ 32) true + 250000000)
      (encode (μ 32) true + -260000000) : BitVec 32) :=
  (gate_tables (by decide : 4 ≤ 32) true true
    (by norm_num [μ] : 2 * |(250000000 : Int)| < μ 32)
    (by norm_num [μ] : 2 * |(-260000000 : Int)| < μ 32)).1 .clHomXOR

end Tangor
