/-
The multiplexer on the FPGA.

`HOGEMUXwrap` runs the kernel twice: `select AND whenTrue`, then `NOT select AND
whenFalse`.  At most one of the two is true, so their sum and `μ` make the selected
operand.  That is `hogeMux_phase`.

The negated multiplexer negates the difference of the two results where it should negate
their sum.  `hogeNmux_eq_neg` says when that makes no difference: when the second result is
its own negation, which no kernel with errors below `μ` returns.
-/
import Tangor.Proofs.GateTables

namespace Tangor

open Torus

variable {Pointer : Type} {w n : Nat}

/-- The phase is `+μ` or `-μ`, up to an error below half of `μ`. -/
def Encodes (key : Fin n → BitVec w) (c : TLWE w n) (b : Bool) : Prop :=
  ∃ e : Int, 2 * |e| < μ w ∧ phase key c = ((encode (μ w) b + e : Int) : BitVec w)

/-- The scales and offsets of the gates. -/
def scales : List Int := [1, 2, -1, -2]

/-- The kernel bootstraps the sign of the combination its indices stand for, and adds an
error of at most `B`. -/
def GateKernel (kernel : Kernel w n) (key : Fin n → BitVec w) (B : Int) : Prop :=
  ∀ casign ∈ scales, ∀ cbsign ∈ scales, ∀ offset ∈ scales, ∀ (a b : TLWE w n) (t : Bool),
    Signals t (Int.cast casign * phase key a + Int.cast cbsign * phase key b +
      Int.cast offset * Int.cast (μ w)) →
    Near B ((encode (μ w) t : Int) : BitVec w)
      (phase key (kernel (scaleIndex casign) (scaleIndex cbsign) (scaleIndex offset) a b))

/-! ### One run of the kernel -/

/-- The kernel computes a gate of the table. -/
theorem GateKernel.gate {kernel : Kernel w n} {key : Fin n → BitVec w} {B : Int}
    (hkernel : GateKernel kernel key B) (hw : 3 ≤ w) (gate : WrappedGate) {a b : TLWE w n}
    {x y : Bool} (ha : Encodes key a x) (hb : Encodes key b y) :
    Near B ((encode (μ w) (gate.eval x y) : Int) : BitVec w)
      (phase key (kernel (scaleIndex gate.parameters.1) (scaleIndex gate.parameters.2.1)
        (scaleIndex gate.parameters.2.2) a b)) := by
  obtain ⟨e₁, h₁, ha⟩ := ha
  obtain ⟨e₂, h₂, hb⟩ := hb
  have hscales : gate.parameters.1 ∈ scales ∧ gate.parameters.2.1 ∈ scales ∧
      gate.parameters.2.2 ∈ scales := by cases gate <;> decide
  refine hkernel _ hscales.1 _ hscales.2.1 _ hscales.2.2 a b _ ?_
  have hsignals := signals_of_margin hw (gate.margin x y) h₁ h₂
  rw [ha, hb]
  simpa only [combination, Int.cast_add, Int.cast_mul] using hsignals

variable [DecidableEq Pointer]

/-! ### The two runs -/

section Runs

variable (kernel : Kernel w n) {buffers : Nat → Pointer} {s : Hoge Pointer w n}

/-- What the two runs return. -/
def Hoge.muxRuns (buffers : Nat → Pointer) (s : Hoge Pointer w n) : TLWE w n × TLWE w n :=
  (kernel 0 0 2 (s.memory (buffers 1)) (s.memory (buffers 2)),
    kernel 2 0 2 (s.memory (buffers 1)) (s.memory (buffers 3)))

theorem hogeMux_eq (hdistinct : buffers 3 ≠ buffers 0) :
    (s.HOGEMUXwrap kernel false buffers).memory (buffers 0) =
      (s.muxRuns kernel buffers).1 + (s.muxRuns kernel buffers).2 + trivial (μ w : BitVec w) := by
  simp only [Hoge.HOGEMUXwrap, Hoge.store, Hoge.enqueueTask, Function.update_self,
    Function.update_of_ne hdistinct, update_last, Hoge.muxRuns]
  rfl

theorem hogeNmux_eq (hdistinct : buffers 3 ≠ buffers 0) :
    (s.HOGEMUXwrap kernel true buffers).memory (buffers 0) =
      -((s.muxRuns kernel buffers).1 - (s.muxRuns kernel buffers).2) +
        trivial (-(μ w : BitVec w)) := by
  simp only [Hoge.HOGEMUXwrap, Hoge.store, Hoge.enqueueTask, Function.update_self,
    Function.update_of_ne hdistinct, update_last, Hoge.muxRuns]
  rfl

/-- The negated multiplexer is the negation of the other exactly where the second result is
its own negation. -/
theorem hogeNmux_eq_neg (hdistinct : buffers 3 ≠ buffers 0) :
    (s.HOGEMUXwrap kernel true buffers).memory (buffers 0) =
        -(s.HOGEMUXwrap kernel false buffers).memory (buffers 0) ↔
      (s.muxRuns kernel buffers).2 + (s.muxRuns kernel buffers).2 = 0 := by
  rw [hogeNmux_eq kernel hdistinct, hogeMux_eq kernel hdistinct]
  generalize (s.muxRuns kernel buffers).1 = x
  generalize (s.muxRuns kernel buffers).2 = y
  have hneg : (trivial (-(μ w : BitVec w)) : TLWE w n) = -trivial (μ w : BitVec w) :=
    Pi.single_neg _ _
  rw [hneg]
  constructor
  · intro h
    have hsum : y + y = (-(x - y) + -trivial (μ w : BitVec w)) -
        -(x + y + trivial (μ w : BitVec w)) := by
      abel
    rw [hsum, h, sub_self]
  · intro h
    rw [← sub_eq_zero, ← h]
    abel

end Runs

/-! ### What the multiplexers mean -/

section Meaning

variable {kernel : Kernel w n} {key : Fin n → BitVec w} {B : Int} {buffers : Nat → Pointer}
  {s : Hoge Pointer w n} {select whenTrue whenFalse : Bool}

variable (s buffers) in
omit [DecidableEq Pointer] in
/-- The first run computes `select AND whenTrue`, the second `NOT select AND whenFalse`. -/
theorem muxRuns_near (hw : 3 ≤ w) (hkernel : GateKernel kernel key B)
    (hs : Encodes key (s.memory (buffers 1)) select)
    (ht : Encodes key (s.memory (buffers 2)) whenTrue)
    (hf : Encodes key (s.memory (buffers 3)) whenFalse) :
    Near B ((encode (μ w) (select && whenTrue) : Int) : BitVec w)
        (phase key (s.muxRuns kernel buffers).1) ∧
      Near B ((encode (μ w) (!select && whenFalse) : Int) : BitVec w)
        (phase key (s.muxRuns kernel buffers).2) :=
  ⟨hkernel.gate hw .clHomAND hs ht, hkernel.gate hw .clHomANDNY hs hf⟩

/-- What `HOGEMUXwrap<false>` leaves is the selected operand. -/
theorem hogeMux_phase (hw : 3 ≤ w) (hkernel : GateKernel kernel key B)
    (hdistinct : buffers 3 ≠ buffers 0) (hs : Encodes key (s.memory (buffers 1)) select)
    (ht : Encodes key (s.memory (buffers 2)) whenTrue)
    (hf : Encodes key (s.memory (buffers 3)) whenFalse) :
    Near (2 * B) ((encode (μ w) (if select then whenTrue else whenFalse) : Int) : BitVec w)
      (phase key ((s.HOGEMUXwrap kernel false buffers).memory (buffers 0))) := by
  obtain ⟨hfirst, hsecond⟩ := muxRuns_near buffers s hw hkernel hs ht hf
  have hsum := (hfirst.add hsecond).add_right (μ w : BitVec w)
  rw [← two_mul, ← Int.cast_add, ← Int.cast_add] at hsum
  have hencode : encode (μ w) (select && whenTrue) + encode (μ w) (!select && whenFalse) +
      μ w = encode (μ w) (if select then whenTrue else whenFalse) := by
    cases select <;> simp [encode]
  rw [hogeMux_eq kernel hdistinct, map_add, map_add, phase_trivial, ← hencode]
  exact hsum

/-- A word near `+μ` or `-μ`, with an error below `μ`, is not its own negation. -/
theorem Near.add_self_ne_zero (hw : 3 ≤ w) {b : Bool} {x : BitVec w}
    (hx : Near B ((encode (μ w) b : Int) : BitVec w) x) (hB : B < μ w) : x + x ≠ 0 := by
  obtain ⟨e, he, rfl⟩ := hx
  intro h
  have hcast : ((2 * (encode (μ w) b + e) : Int) : BitVec w) = 0 := by
    rw [← h]
    push_cast
    ring
  have hpow := two_pow_eq hw
  have hlt := abs_lt.mp (lt_of_le_of_lt he hB)
  have hzero := congrArg BitVec.toInt hcast
  rw [toInt_eq 0 (by cases b <;> simp only [encode] <;> omega)
    (by cases b <;> simp only [encode] <;> omega)] at hzero
  cases b <;> simp [encode] at hzero <;> omega

/-- **`HOGEMUXwrap<false>` leaves the selected operand, and `HOGEMUXwrap<true>` its negation
only if doubling the kernel's second result gives 0**, which a kernel with errors below `μ`
excludes. -/
theorem hogeMux_iff (hw : 3 ≤ w) (hkernel : GateKernel kernel key B)
    (hdistinct : ∀ i, 1 ≤ i → i ≤ 3 → buffers i ≠ buffers 0)
    (hs : Encodes key (s.memory (buffers 1)) select)
    (ht : Encodes key (s.memory (buffers 2)) whenTrue)
    (hf : Encodes key (s.memory (buffers 3)) whenFalse) :
    let mux := (s.HOGEMUXwrap kernel false buffers).memory (buffers 0)
    let nmux := (s.HOGEMUXwrap kernel true buffers).memory (buffers 0)
    let correct := Near (2 * B)
      ((encode (μ w) (if select then whenTrue else whenFalse) : Int) : BitVec w) (phase key mux)
    let second := kernel 2 0 2 (s.memory (buffers 1)) (s.memory (buffers 3))
    correct ∧ (correct ∧ nmux = -mux ↔ second + second = 0) ∧
      (B < μ w → ¬ (correct ∧ nmux = -mux)) := by
  intro mux nmux correct second
  have h3 : buffers 3 ≠ buffers 0 := hdistinct 3 (by decide) (by decide)
  have hcorrect : correct := hogeMux_phase hw hkernel h3 hs ht hf
  have hsecond := (muxRuns_near buffers s hw hkernel hs ht hf).2
  have hiff := hogeNmux_eq_neg kernel (s := s) h3
  refine ⟨hcorrect, ⟨fun h => hiff.mp h.2, fun h => ⟨hcorrect, hiff.mpr h⟩⟩, ?_⟩
  intro hB h
  refine Near.add_self_ne_zero hw hsecond hB ?_
  rw [← map_add, hiff.mp h.2, map_zero]

end Meaning

/-! ### A kernel without errors -/

/-- A kernel that decodes its indices and returns the gate's result in the clear. -/
def clearKernel (key : Fin n → BitVec w) : Kernel w n := fun scalea scaleb offset a b =>
  let value := Int.cast (scales.getD scalea 0) * phase key a +
    Int.cast (scales.getD scaleb 0) * phase key b + Int.cast (scales.getD offset 0 * μ w)
  trivial (Int.cast (encode (μ w) (decide (0 < value.toInt))))

theorem clearKernel_gate (key : Fin n → BitVec w) : GateKernel (clearKernel key) key 0 := by
  have hdecode : ∀ c ∈ scales, scales.getD (scaleIndex c) 0 = c := by decide
  intro casign hca cbsign hcb offset hoffset a b t hsignals
  refine ⟨0, by simp, ?_⟩
  simp only [clearKernel, hdecode _ hca, hdecode _ hcb, hdecode _ hoffset, phase_trivial,
    Int.cast_mul]
  rw [Signals] at hsignals
  cases t with
  | true =>
      rw [decide_eq_true (by simpa using hsignals)]
      simp
  | false =>
      rw [decide_eq_false (not_lt_of_gt (by simpa using hsignals))]
      simp

def clearKey : Fin 1 → BitVec 5 := fun _ => 1

/-- Operands in the clear: `select` is true, the others are false. -/
def clearOperands : Hoge Nat 5 1 where
  memory p := trivial (Int.cast (encode (μ 5) (p = 1)))
  buftlwea := 0
  buftlweb := 0
  bufres := 0
  bufferIna := 0
  bufferInb := 0
  bufferRes := 0
  scalea := 0
  scaleb := 0
  offset := 0

theorem clearOperands_encodes (p : Nat) :
    Encodes clearKey (clearOperands.memory p) (p = 1) :=
  ⟨0, by decide, by simp [clearOperands]⟩

/-- Of a false operand both multiplexers leave `-μ`. -/
theorem hogeNmux_false :
    GateKernel (clearKernel clearKey) clearKey 0 ∧
      (∀ p, Encodes clearKey (clearOperands.memory p) (p = 1)) ∧
      (clearOperands.HOGEMUXwrap (clearKernel clearKey) false id).memory 0 = trivial (-4) ∧
      (clearOperands.HOGEMUXwrap (clearKernel clearKey) true id).memory 0 = trivial (-4) ∧
      (clearOperands.HOGEMUXwrap (clearKernel clearKey) true id).memory 0 ≠
        -(clearOperands.HOGEMUXwrap (clearKernel clearKey) false id).memory 0 :=
  ⟨clearKernel_gate _, clearOperands_encodes, by decide, by decide, by decide⟩

theorem hogeMux_iff_false :
    (clearOperands.HOGEMUXwrap (clearKernel clearKey) true id).memory 0 ≠
      -(clearOperands.HOGEMUXwrap (clearKernel clearKey) false id).memory 0 := by
  have h := hogeMux_iff (B := 0) (by decide) (clearKernel_gate clearKey)
    (show ∀ i, 1 ≤ i → i ≤ 3 → id i ≠ id 0 from fun i hi _ => Nat.one_le_iff_ne_zero.mp hi)
    (clearOperands_encodes 1)
    (clearOperands_encodes 2) (clearOperands_encodes 3)
  exact fun heq => h.2.2 (by decide) ⟨h.1, heq⟩

end Tangor
