/-
The answer `verify` prints is what `client` expected.

Between the two lie the packing of the operands, the encryption, the program with its workers,
and the sum over the decrypted bits.  The packed bits stand at the positions of the input bits
(`client_getElem?`), the program writes the values of the output bits (`written_encodes`), and
the sum of `outputs` bits is the number that has them (`verify_bits`).

The files line up with the ports because no net appears twice among the port bits
(`aligned_of_nodup`).
-/
import Tangor.Clients
import Tangor.Proofs.Encrypted
import Tangor.Proofs.Ports

namespace Tangor

open YosysJSONparser

/-! ### Packing and adding up -/

theorem foldl_set_length {α : Type*} (f : Nat → α) (c n : Nat) (p : List α) :
    ((List.range n).foldl (fun p i => p.set (i + c) (f i)) p).length = p.length := by
  induction n with
  | zero => rfl
  | succ n ih => rw [List.range_succ, List.foldl_append, List.foldl_cons, List.foldl_nil,
      List.length_set, ih]

/-- A loop that writes `n` elements of a vector, from the position `c` on. -/
theorem foldl_set_getElem? {α : Type*} (f : Nat → α) (c n k : Nat) (p : List α) :
    ((List.range n).foldl (fun p i => p.set (i + c) (f i)) p)[k]?
      = if c ≤ k ∧ k < c + n ∧ k < p.length then some (f (k - c)) else p[k]? := by
  induction n with
  | zero =>
      rw [if_neg (by omega)]
      rfl
  | succ n ih =>
      rw [List.range_succ, List.foldl_append, List.foldl_cons, List.foldl_nil, List.getElem?_set,
        foldl_set_length, ih]
      by_cases hk : n + c = k
      · subst hk
        simp only [if_true, Nat.add_sub_cancel]
        by_cases hlt : n + c < p.length
        · rw [if_pos hlt, if_pos ⟨by omega, by omega, hlt⟩]
        · rw [if_neg hlt, if_neg (fun h => hlt h.2.2), List.getElem?_eq_none (by omega)]
      · rw [if_neg hk]
        congr 1
        simp only [eq_iff_iff]
        omega

namespace OperandTest

variable {test : OperandTest} {ina inb : BitVec 32}

theorem shift_and_one (x : BitVec 32) (i : Nat) :
    ((x >>> i) &&& 1).setWidth 8 = bitOf (x.getLsbD i) := by
  show ((x >>> i) &&& 1#32).setWidth 8 = _
  rw [BitVec.and_one_eq_setWidth_ofBool_getLsbD, BitVec.getLsbD_ushiftRight, Nat.add_zero]
  cases x.getLsbD i <;> rfl

/-- The packed operands, behind the clock and the reset. -/
theorem client_getElem? (k : Nat) : (test.client ina inb)[k]? =
    if k < 2 then some 0
    else if k < 2 + test.bitwidth then some (bitOf (ina.getLsbD (k - 2)))
    else if k < 2 + 2 * test.bitwidth then some (bitOf (inb.getLsbD (k - 2 - test.bitwidth)))
    else none := by
  simp only [client, shift_and_one, Nat.add_assoc]
  rw [foldl_set_getElem? (fun i => bitOf (inb.getLsbD i)), foldl_set_length,
    foldl_set_getElem? (fun i => bitOf (ina.getLsbD i)), List.length_replicate,
    List.getElem?_replicate, Nat.sub_sub]
  split_ifs <;> first | rfl | omega

/-- What a bit adds in its round. -/
theorem shifted_bit (b : Bool) (k j : Nat) :
    ((bitOf b).setWidth 32 <<< k).getLsbD j = (decide (j < 32 ∧ j = k) && b) := by
  have hbit : ∀ i, (bitOf b).getLsbD i = (decide (i = 0) && b) := by
    intro i
    cases b <;> simp [bitOf, BitVec.getLsbD_one]
  rw [BitVec.getLsbD_shiftLeft, BitVec.getLsbD_setWidth, hbit]
  by_cases hj : j = k
  · simp [hj]
  · by_cases hlt : j < k
    · simp [hj, hlt]
    · simp [hj, show j - k ≠ 0 by omega]

/-- The first `k` rounds of `verify`. -/
theorem verify_rounds {bits : List Bool} {k : Nat} (hk : k ≤ bits.length) :
    ∃ answer : BitVec 32, (List.range k).foldlM (fun answer i =>
        (bits.map bitOf)[i]?.map fun bit => answer + (bit.setWidth 32 <<< i)) 0 = some answer ∧
      ∀ j, answer.getLsbD j = (decide (j < 32 ∧ j < k) && bits.getD j false) := by
  induction k with
  | zero => exact ⟨0, rfl, by simp⟩
  | succ k ih =>
      obtain ⟨answer, hanswer, hbits⟩ := ih (by omega)
      have hget : (bits.map bitOf)[k]? = some (bitOf bits[k]) := by
        rw [List.getElem?_map, List.getElem?_eq_getElem hk]
        rfl
      refine ⟨answer + ((bitOf bits[k]).setWidth 32 <<< k), ?_, ?_⟩
      · rw [List.range_succ, List.foldlM_append, hanswer]
        rw [Option.bind_eq_bind, Option.bind_some, List.foldlM_cons, hget]
        rfl
      · -- The bits below `k` and the bit `k` do not overlap.
        have hdisjoint : answer &&& ((bitOf bits[k]).setWidth 32 <<< k) = 0 := by
          refine BitVec.eq_of_getLsbD_eq fun j _ => ?_
          rw [BitVec.getLsbD_and, hbits, shifted_bit]
          simp
          omega
        intro j
        rw [BitVec.add_eq_or_of_and_eq_zero _ _ hdisjoint, BitVec.getLsbD_or, hbits, shifted_bit]
        by_cases hj : j = k
        · subst hj
          simp [List.getElem?_eq_getElem hk]
        · have hiff : j < k + 1 ↔ j < k := by omega
          simp [hj, hiff]

/-- The sum of bits is the number that has them. -/
theorem verify_bits {bits : List Bool} (hlength : bits.length = test.outputs) :
    ∃ answer, test.verify (bits.map bitOf) = some answer ∧
      ∀ k, answer.getLsbD k = bits.getD k false := by
  obtain ⟨answer, hanswer, hbits⟩ := verify_rounds (le_of_eq hlength.symm)
  refine ⟨answer, hanswer, ?_⟩
  intro k
  rw [hbits]
  by_cases hk : k < test.outputs
  · simp [hk, lt_of_lt_of_le hk test.outputs_le]
  · rw [List.getD_eq_default _ _ (show bits.length ≤ k by omega), Bool.and_false]

end OperandTest

/-! ### The circuit -/

/-- The netlist is one for the test: its ports are declared in this order and numbered as
they first appear, and it computes what the client expects, whatever the clock and the reset
hold. -/
structure OperandTest.Circuit (test : OperandTest) (n : Netlist) (clock reset : Nat)
    (as bs os : List Nat) : Prop where
  ports : n.ports.map Prod.snd = [⟨.input, [clock]⟩, ⟨.input, [reset]⟩, ⟨.input, as⟩,
    ⟨.input, bs⟩, ⟨.output, os⟩]
  numbered : n.Numbered
  nodup : n.portBits.Nodup
  asLength : as.length = test.bitwidth
  bsLength : bs.length = test.bitwidth
  osLength : os.length = test.outputs
  computes : ∀ (x : Nat → Bool) (ina inb : BitVec 32), ina.toNat < 2 ^ test.bitwidth →
    inb.toNat < 2 ^ test.bitwidth → (∀ i id, as[i]? = some id → x id = ina.getLsbD i) →
    (∀ i id, bs[i]? = some id → x id = inb.getLsbD i) →
    ∀ k id, os[k]? = some id → n.Value x id ((test.expected ina inb).getLsbD k)

namespace OperandTest.Circuit

variable {test : OperandTest} {n : Netlist} {clock reset : Nat} {as bs os : List Nat}

theorem bitsOf_eq (h : test.Circuit n clock reset as bs os) (d : Direction) :
    n.bitsOf d = [⟨.input, [clock]⟩, ⟨.input, [reset]⟩, ⟨.input, as⟩, ⟨.input, bs⟩,
      ⟨.output, os⟩].flatMap (Port.bitsOf d) := by
  rw [← h.ports, List.flatMap_map]
  rfl

theorem inputBits (h : test.Circuit n clock reset as bs os) :
    n.inputBits = clock :: reset :: (as ++ bs) := by
  rw [Netlist.inputBits, h.bitsOf_eq]
  simp [Port.bitsOf]

theorem outputBits (h : test.Circuit n clock reset as bs os) : n.outputBits = os := by
  rw [Netlist.outputBits, h.bitsOf_eq]
  simp [Port.bitsOf]

theorem inputBits_nodup (h : test.Circuit n clock reset as bs os) : n.inputBits.Nodup :=
  h.nodup.sublist (n.bitsOf_sublist .input)

/-- The values of the input nets, when the client packs `ina` and `inb`. -/
def values (test : OperandTest) (n : Netlist) (ina inb : BitVec 32) (id : Nat) : Bool :=
  (test.client ina inb).getD (n.inputBits.idxOf id) 0 ≠ 0

variable (ina inb : BitVec 32)

theorem values_eq (h : test.Circuit n clock reset as bs os) {k id : Nat}
    (hk : n.inputBits[k]? = some id) :
    values test n ina inb id = decide ((test.client ina inb).getD k 0 ≠ 0) := by
  obtain ⟨hlt, rfl⟩ := List.getElem?_eq_some_iff.mp hk
  rw [values, h.inputBits_nodup.idxOf_getElem k hlt]

theorem bitOf_ne_zero (b : Bool) : decide (bitOf b ≠ 0) = b := by
  cases b <;> rfl

theorem values_as (h : test.Circuit n clock reset as bs os) (i id : Nat) (hi : as[i]? = some id) :
    values test n ina inb id = ina.getLsbD i := by
  have hlt := (List.getElem?_eq_some_iff.mp hi).1
  have hget : n.inputBits[i + 2]? = some id := by
    rw [h.inputBits]
    simpa [List.getElem?_append_left hlt] using hi
  rw [h.values_eq ina inb hget, List.getD_eq_getElem?_getD, client_getElem?,
    if_neg (by omega), if_pos (by have := h.asLength; omega)]
  simpa using bitOf_ne_zero _

theorem values_bs (h : test.Circuit n clock reset as bs os) (i id : Nat) (hi : bs[i]? = some id) :
    values test n ina inb id = inb.getLsbD i := by
  have hlt := (List.getElem?_eq_some_iff.mp hi).1
  have hget : n.inputBits[i + test.bitwidth + 2]? = some id := by
    rw [h.inputBits]
    simpa [List.getElem?_append_right, h.asLength] using hi
  rw [h.values_eq ina inb hget, List.getD_eq_getElem?_getD, client_getElem?,
    if_neg (by omega), if_neg (by omega), if_pos (by have := h.bsLength; omega)]
  simpa [show i + test.bitwidth + 2 - 2 - test.bitwidth = i by omega] using bitOf_ne_zero _

/-- The client's file holds encryptions of these values, in the order of the inputs. -/
theorem data_encodes (h : test.Circuit n clock reset as bs os) {w m : Nat} {key : Fin m → BitVec w}
    {data : List (TLWE w m)}
    (hdata : List.Forall₂ (fun bit c => Encodes key c (decide (bit ≠ 0))) (test.client ina inb)
      data) (valueInit : TLWE w m) {k id : Nat} (hk : n.inputBits[k]? = some id) :
    Encodes key (data.getD k valueInit) (values test n ina inb id) := by
  have hlt : k < 2 + 2 * test.bitwidth := by
    have hlength := (List.getElem?_eq_some_iff.mp hk).1
    rw [h.inputBits] at hlength
    simp only [List.length_cons, List.length_append, h.asLength, h.bsLength] at hlength
    omega
  have hbit : ∃ bit, (test.client ina inb)[k]? = some bit := by
    rw [client_getElem?]
    split_ifs <;> exact ⟨_, rfl⟩
  obtain ⟨bit, hbit⟩ := hbit
  obtain ⟨c, hc, hencodes⟩ := Fallible.forall₂_getElem?_left hdata hbit
  rw [h.values_eq ina inb hk, List.getD_eq_getElem?_getD, List.getD_eq_getElem?_getD, hc, hbit]
  exact hencodes

/-- A result with the values of the output nets gives the expected answer. -/
theorem verify_eq (h : test.Circuit n clock reset as bs os) (honce : n.DrivenOnce)
    (hina : ina.toNat < 2 ^ test.bitwidth) (hinb : inb.toNat < 2 ^ test.bitwidth)
    {bits : List Bool} (hbits : List.Forall₂ (n.Value (values test n ina inb)) os bits) :
    test.verify (bits.map bitOf) = some (test.expected ina inb) := by
  have hlength : bits.length = test.outputs := hbits.length_eq.symm.trans h.osLength
  obtain ⟨answer, hanswer, hget⟩ := verify_bits hlength
  rw [hanswer, Option.some_inj]
  refine BitVec.eq_of_getLsbD_eq fun k _ => ?_
  rw [hget]
  by_cases hk : k < test.outputs
  · obtain ⟨id, hos⟩ : ∃ id, os[k]? = some id :=
      ⟨_, List.getElem?_eq_getElem (h.osLength ▸ hk)⟩
    obtain ⟨b, hb, hvalue⟩ := Fallible.forall₂_getElem?_left hbits hos
    have hexpected := h.computes _ ina inb hina hinb (h.values_as ina inb) (h.values_bs ina inb)
      k _ hos
    rw [List.getD_eq_getElem?_getD, hb, Option.getD_some]
    exact hvalue.unique honce hexpected
  · -- The expected number has no bits there.
    rw [List.getD_eq_default _ _ (by omega)]
    refine (Nat.testBit_lt_two_pow ((test.fits ina inb hina hinb).trans_le ?_)).symm
    exact Nat.pow_le_pow_right (by decide) (by omega)

end OperandTest.Circuit

/-! ### The answer -/

section Answer

variable {V N : Type*} [DecidableEq N] {runOn : Worker → Codelet → List V → V}
  {workers : Worker → Prop} {main : N} {useM12 : Bool} {doc module : Json} {n : Netlist}
  {bc : ParsedBC} {submissions : List Submission}

/-- **`verify` prints what `client` expected**, for every circuit that computes it, whichever
workers the tasks ran on and in whichever order. -/
theorem verify_prints_expected (hrep : Represents doc module n)
    (hparse : parsedBC useM12 doc = .ok bc) (hn : n.Compilable) {test : OperandTest}
    {clock reset : Nat} {as bs os : List Nat} (hcircuit : test.Circuit n clock reset as bs os)
    {w m : Nat} (hw : 3 ≤ w) {lib : Libraries w m} {key : Fin m → BitVec w} {B : Int}
    (hlib : lib.Sound key B) (hB : 4 * B < μ w) {build : Build}
    (hnmux : build.useHoge = true → ∀ g ∈ n.gates, g.type ≠ .NMUX) {ina inb : BitVec 32}
    (hina : ina.toNat < 2 ^ test.bitwidth) (hinb : inb.toNat < 2 ^ test.bitwidth)
    {data : List (TLWE w m)}
    (hdata : List.Forall₂ (fun bit c => Encodes key c (decide (bit ≠ 0))) (test.client ina inb)
      data) (valueInit homCONSTANTZERO : TLWE w m)
    (hbuild : starpuBuildGraph useM12 bc = .ok submissions) {s : MainState N (TLWE w m)}
    (hrun : Relation.ReflTransGen
      (PlacedStep (fun worker codelet => codelet.run lib build worker) build.Offers main
        (cipheroutHandle bc))
      (MainState.start main (initialSlots data valueInit homCONSTANTZERO)
        (insertedTasks submissions)) s)
    {result : List (TLWE w m)} (hresult : s.phase = .written result) :
    test.verify (result.map fun c => bitOf (decrypt key c)) = some (test.expected ina inb) := by
  have haligned := aligned_of_nodup hrep hparse hcircuit.numbered hcircuit.nodup
  have hout : bc.outputVector = os :=
    (List.ext_getElem? fun k => (haligned k).2).trans hcircuit.outputBits
  have hin : ∀ i id, bc.inputVector[i]? = some id →
      Encodes key (initialSlots data valueInit homCONSTANTZERO (.cipherin i))
        (OperandTest.Circuit.values test n ina inb id) := by
    intro i id hi
    exact hcircuit.data_encodes ina inb hdata valueInit ((haligned i).1.symm.trans hi)
  have hwritten := written_encodes hrep hparse hn (fun worker _ g hg _ _ _ =>
    run_encodes hw hlib hB (computes_of_types hnmux worker hg)) hin hbuild hrun hresult
  rw [hout] at hwritten
  have hvalues : List.Forall₂ (n.Value (OperandTest.Circuit.values test n ina inb)) os
      (result.map (decrypt key)) := by
    rw [List.forall₂_map_right_iff]
    refine hwritten.imp fun id c hc => ?_
    obtain ⟨b, hb, hencodes⟩ := hc
    rwa [hencodes.decrypt hw]
  have hanswer := hcircuit.verify_eq ina inb hn.once hina hinb hvalues
  rwa [List.map_map] at hanswer

end Answer

/-! ### A half adder -/

/-- One bit for each operand, and their sum. -/
def halfAdderTest : OperandTest where
  bitwidth := 1
  outputs := 2
  expected ina inb := ina + inb
  outputs_le := by decide
  fits ina inb ha hb := by
    rw [BitVec.toNat_add]
    omega

def halfAdderConn : Pin → Nat
  | .A => 4
  | _ => 5

/-- The sum of two bits and its carry. -/
def halfAdder : Netlist where
  ports := [("clock", ⟨.input, [2]⟩), ("reset", ⟨.input, [3]⟩), ("io_a", ⟨.input, [4]⟩),
    ("io_b", ⟨.input, [5]⟩), ("io_out", ⟨.output, [6, 7]⟩)]
  cells := [("carry", .gate ⟨.AND, halfAdderConn, 7⟩), ("sum", .gate ⟨.XOR, halfAdderConn, 6⟩)]

theorem halfAdder_compilable : halfAdder.Compilable where
  combinational := rfl
  once := show List.Nodup _ by decide
  driven := by
    unfold Netlist.OperandsDriven
    decide
  outputs := by decide
  nodup := by decide
  listed := ⟨by decide, by decide⟩

/-- The nets of the half adder have these values. -/
theorem halfAdder_value (x : Nat → Bool) :
    halfAdder.Value x 6 (x 4 ^^ x 5) ∧ halfAdder.Value x 7 (x 4 && x 5) := by
  have hpin : ∀ p, halfAdder.Value x (halfAdderConn p) (x (halfAdderConn p)) :=
    fun p => .input (by cases p <;> decide)
  have hgates : halfAdder.gates = [⟨.AND, halfAdderConn, 7⟩, ⟨.XOR, halfAdderConn, 6⟩] := rfl
  refine ⟨?_, ?_⟩
  · exact .gate (hgates ▸ List.mem_cons_of_mem _ List.mem_cons_self) _ fun p _ => hpin p
  · exact .gate (hgates ▸ List.mem_cons_self) _ fun p _ => hpin p

theorem halfAdder_circuit : halfAdderTest.Circuit halfAdder 2 3 [4] [5] [6, 7] where
  ports := rfl
  numbered := by
    unfold Netlist.Numbered
    decide
  nodup := by decide
  asLength := rfl
  bsLength := rfl
  osLength := rfl
  computes := by
    intro x ina inb hina hinb ha hb k id hid
    have hx : x 4 = ina.getLsbD 0 := ha 0 4 rfl
    have hy : x 5 = inb.getLsbD 0 := hb 0 5 rfl
    have hsum := halfAdder_value x
    rw [hx, hy] at hsum
    have hcases : ∀ v : BitVec 32, v.toNat < 2 ^ 1 → v = 0 ∨ v = 1 := by
      intro v hv
      simp only [← BitVec.toNat_inj]
      exact Nat.le_one_iff_eq_zero_or_eq_one.mp (Nat.le_of_lt_succ hv)
    match k with
    | 0 =>
        obtain rfl := Option.some.inj hid
        rcases hcases ina hina with rfl | rfl <;> rcases hcases inb hinb with rfl | rfl <;>
          exact hsum.1
    | 1 =>
        obtain rfl := Option.some.inj hid
        rcases hcases ina hina with rfl | rfl <;> rcases hcases inb hinb with rfl | rfl <;>
          exact hsum.2
    | _ + 2 => cases hid

theorem halfAdder_represents : Represents halfAdder.toJson halfAdder.moduleJson halfAdder :=
  represents_toJson (by simp [Netlist.Fits, halfAdder, halfAdderConn, GateType.pins])

theorem halfAdder_parsed : parsedBC false halfAdder.toJson = .ok
    { inputVector := [2, 3, 4, 5], outputVector := [6, 7],
      gateVector := [{ name := "AND", in0 := 4, in1 := 5, out0 := 7 },
        { name := "XOR", in0 := 4, in1 := 5, out0 := 6 }],
      dependencyVector := [0, 0, 0, 0, 0, 0, 2, 1] } := by
  rfl

/-- One and one make two. -/
theorem verify_prints_expected_halfAdder :
    ∃ (s : MainState Bool (TLWE 5 1)) (result : List (TLWE 5 1)), s.phase = .written result ∧
      halfAdderTest.verify (result.map fun c => bitOf (decrypt clearKey c)) = some 2 := by
  have hn := halfAdder_compilable
  have hbuild := build_placed halfAdder_represents halfAdder_parsed hn.combinational hn.once
    hn.driven
  set data : List (TLWE 5 1) := (halfAdderTest.client 1 1).map fun bit => clear (decide (bit ≠ 0))
  have hdata : List.Forall₂ (fun bit c => Encodes clearKey c (decide (bit ≠ 0)))
      (halfAdderTest.client 1 1) data := by
    rw [List.forall₂_map_right_iff, List.forall₂_same]
    exact fun bit _ => encodes_of_near (by decide) (clear_near clearKey _)
  obtain ⟨s, hrun, result, hresult⟩ := exists_written (clearRun ⟨0, false⟩) true _ _
    (initialSlots data 0 0)
  have hplaced : Relation.ReflTransGen (PlacedStep clearRun hogeBuild.Offers true _) _ s :=
    placed_of_steps (by intro h; cases h) hrun
  exact ⟨s, result, hresult, verify_prints_expected halfAdder_represents halfAdder_parsed hn
    halfAdder_circuit (by decide) (clearLibraries_sound (by decide) clearKey) (by decide)
    (by decide) (by decide) (by decide) hdata 0 0 hbuild hplaced hresult⟩

end Tangor
