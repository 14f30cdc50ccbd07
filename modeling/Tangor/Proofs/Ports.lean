/-
Which port bit a position of the input and the output file stands for.

The client packs and unpacks its files in the order the bits are declared in.  The
program meets the ports in the order of their names, sorts the ids, and takes the
positions of the sorted vectors.  Ids are numbered by first appearance
(`Numbered`), so sorting restores the order the nets *first appear* in.

That is the declared order as long as no bit goes back to a net that appeared before
the net of an earlier bit, which is what `aligned_iff` says.
-/
import Tangor.Proofs.SearchPointer

namespace Tangor

open YosysJSONparser

/-! ### Numbering by first appearance -/

namespace Netlist

/-- All port bits, in declaration order. -/
def portBits (n : Netlist) : List Nat := n.ports.flatMap fun np => np.2.bits

/-- Where a net first appears among the port bits. -/
def firstAppearance (n : Netlist) (id : Nat) : Nat := n.portBits.idxOf id

/-- A port bit is a net that appeared before, or gets the next id, counting from 2. -/
def Numbered (n : Netlist) : Prop :=
  ∀ k, (hk : k < n.portBits.length) → n.portBits[k] ∈ n.portBits.take k ∨
    n.portBits[k] = (n.portBits.take k).toFinset.card + 2

theorem Numbered.split {n : Netlist} (h : n.Numbered) (pre : List Nat) (id : Nat)
    (post : List Nat) (hsplit : n.portBits = pre ++ id :: post) :
    id ∈ pre ∨ id = pre.toFinset.card + 2 := by
  have hk := h pre.length (by simp [hsplit])
  simpa [hsplit] using hk

theorem Numbered.lt_card {n : Netlist} (h : n.Numbered) (pre post : List Nat)
    (hsplit : n.portBits = pre ++ post) : ∀ i ∈ pre, i < pre.toFinset.card + 2 := by
  induction pre using List.reverseRecOn generalizing post with
  | nil => simp
  | append_singleton pre id ih =>
      rw [List.append_assoc, List.singleton_append] at hsplit
      have hle : pre.toFinset.card ≤ (pre ++ [id]).toFinset.card :=
        Finset.card_le_card fun x hx => by
          simp [List.mem_toFinset.mp hx]
      intro i hi
      rcases List.mem_append.mp hi with hi | hi
      · exact (ih (id :: post) hsplit i hi).trans_le (Nat.add_le_add_right hle 2)
      obtain rfl := List.mem_singleton.mp hi
      rcases h.split pre i post hsplit with hold | hnew
      · exact (ih (i :: post) hsplit i hold).trans_le (Nat.add_le_add_right hle 2)
      · have hfresh : i ∉ pre.toFinset := by
          intro hmem
          exact absurd (ih (i :: post) hsplit i (List.mem_toFinset.mp hmem)) (by omega)
        have hcard : (pre ++ [i]).toFinset.card = pre.toFinset.card + 1 := by
          rw [List.toFinset_append, List.toFinset_cons, List.toFinset_nil,
            Finset.union_comm, Finset.insert_union, Finset.empty_union,
            Finset.card_insert_of_notMem hfresh]
        omega

/-- Nets that appear earlier have smaller ids. -/
theorem Numbered.lt_of_firstAppearance {n : Netlist} (h : n.Numbered) {a b : Nat}
    (hb : b ∈ n.portBits) (hlt : n.firstAppearance a < n.firstAppearance b) : a < b := by
  have hlen : n.portBits.idxOf b < n.portBits.length := List.idxOf_lt_length_iff.mpr hb
  have ha : a ∈ n.portBits := List.idxOf_lt_length_iff.mp (hlt.trans hlen)
  have hsplit : n.portBits = n.portBits.take (n.portBits.idxOf b) ++
      b :: n.portBits.drop (n.portBits.idxOf b + 1) := by
    conv_lhs => rw [← List.take_append_drop (n.portBits.idxOf b) n.portBits]
    rw [List.drop_eq_getElem_cons hlen, List.getElem_idxOf]
  have hbefore : a ∈ n.portBits.take (n.portBits.idxOf b) :=
    (List.mem_take_iff_idxOf_lt ha).mpr hlt
  rcases h.split _ b _ hsplit with hold | hid
  · exact absurd ((List.mem_take_iff_idxOf_lt hb).mp hold) (lt_irrefl _)
  · exact hid ▸ h.lt_card _ _ hsplit a hbefore

/-- Ids are ordered as the nets first appear. -/
theorem Numbered.le_iff {n : Netlist} (h : n.Numbered) {a b : Nat} (ha : a ∈ n.portBits)
    (hb : b ∈ n.portBits) : a ≤ b ↔ n.firstAppearance a ≤ n.firstAppearance b := by
  rcases lt_trichotomy (n.firstAppearance a) (n.firstAppearance b) with hlt | heq | hgt
  · exact iff_of_true (h.lt_of_firstAppearance hb hlt).le hlt.le
  · have : a = b := (List.idxOf_inj ha).mp heq
    exact iff_of_true this.le heq.le
  · exact iff_of_false (h.lt_of_firstAppearance ha hgt).not_ge hgt.not_ge

/-- A direction's bits never go back to a net that appeared before the net of an earlier
bit of the direction. -/
def InAppearanceOrder (n : Netlist) (d : Direction) : Prop :=
  (n.bitsOf d).Pairwise fun a b => n.firstAppearance a ≤ n.firstAppearance b

theorem mem_portBits {n : Netlist} {d : Direction} {id : Nat} (h : id ∈ n.bitsOf d) :
    id ∈ n.portBits := by
  obtain ⟨np, hnp, hid⟩ := List.mem_flatMap.mp h
  refine List.mem_flatMap.mpr ⟨np, hnp, ?_⟩
  unfold Port.bitsOf at hid
  split at hid
  · exact hid
  · exact absurd hid List.not_mem_nil

end Netlist

/-! ### Sorted ids -/

theorem sort_eq_of_perm {ids ids' : List Nat} (h : ids.Perm ids') : sort ids = sort ids' :=
  ((sort_perm ids).trans (h.trans (sort_perm ids').symm)).eq_of_pairwise
    (fun _ _ _ _ => Nat.le_antisymm) (sort_pairwise ids) (sort_pairwise ids')

theorem sort_eq_self_iff {ids : List Nat} : sort ids = ids ↔ ids.Pairwise (· ≤ ·) := by
  constructor
  · intro h
    exact h ▸ sort_pairwise ids
  · exact fun h => List.Pairwise.insertionSort_eq h

/-- With ids numbered by first appearance, sorting a direction's bits keeps their order
exactly when they are in the order of appearance. -/
theorem Netlist.Numbered.sort_bitsOf {n : Netlist} (h : n.Numbered) (d : Direction) :
    sort (n.bitsOf d) = n.bitsOf d ↔ n.InAppearanceOrder d := by
  rw [sort_eq_self_iff, Netlist.InAppearanceOrder]
  constructor
  · exact fun hp => hp.imp_of_mem fun ha hb hle =>
      (h.le_iff (Netlist.mem_portBits ha) (Netlist.mem_portBits hb)).mp hle
  · exact fun hp => hp.imp_of_mem fun ha hb hle =>
      (h.le_iff (Netlist.mem_portBits ha) (Netlist.mem_portBits hb)).mpr hle

/-! ### The positions of the files -/

/-- The `k`-th ciphertext of the client's file is taken for the `k`-th declared input bit,
and the `k`-th ciphertext of the result is that of the `k`-th declared output bit. -/
def Aligned (n : Netlist) (bc : ParsedBC) : Prop :=
  ∀ k : Nat, (Slot.cipherin k).net bc = n.inputBits[k]? ∧
    (Slot.cipherout k).net bc = n.outputBits[k]?

/-- The files line up when sorting the declared ids changes nothing. -/
theorem aligned_iff_sort {useM12 : Bool} {doc module : Json} {n : Netlist} {bc : ParsedBC}
    (hrep : Represents doc module n) (hparse : parsedBC useM12 doc = .ok bc) :
    Aligned n bc ↔ sort (n.bitsOf .input) = n.bitsOf .input ∧
      sort (n.bitsOf .output) = n.bitsOf .output := by
  have hp := parsed_represents hrep hparse
  have hin : bc.inputVector = sort (n.bitsOf .input) :=
    hp.input.trans (sort_eq_of_perm n.inputBits_perm)
  have hout : bc.outputVector = sort (n.bitsOf .output) :=
    hp.output.trans (sort_eq_of_perm n.outputBits_perm)
  rw [← hin, ← hout, List.ext_getElem?_iff, List.ext_getElem?_iff]
  exact forall_and

/-- **The files line up with the declared ports if and only if neither the input nor the
output bits go back to a net that appeared before an earlier one of them.** -/
theorem aligned_iff {useM12 : Bool} {doc module : Json} {n : Netlist} {bc : ParsedBC}
    (hrep : Represents doc module n) (hparse : parsedBC useM12 doc = .ok bc)
    (hnum : n.Numbered) :
    Aligned n bc ↔ n.InAppearanceOrder .input ∧ n.InAppearanceOrder .output := by
  rw [aligned_iff_sort hrep hparse, hnum.sort_bitsOf, hnum.sort_bitsOf]

/-- The bits of a direction, among all the port bits. -/
theorem Netlist.bitsOf_sublist (n : Netlist) (d : Direction) : (n.bitsOf d).Sublist n.portBits := by
  refine List.Sublist.flatMap_right n.ports fun np _ => ?_
  unfold Port.bitsOf
  split
  · exact List.Sublist.refl _
  · exact List.nil_sublist _

/-- Distinct port bits are listed in the order they appear in. -/
theorem Netlist.inAppearanceOrder_of_nodup {n : Netlist} (h : n.portBits.Nodup) (d : Direction) :
    n.InAppearanceOrder d := by
  refine List.Pairwise.sublist (n.bitsOf_sublist d) (List.pairwise_iff_getElem.mpr ?_)
  intro i j hi hj hij
  rw [firstAppearance, firstAppearance, h.idxOf_getElem i hi, h.idxOf_getElem j hj]
  exact hij.le

/-- **When no net appears twice among the port bits, the files line up**, whatever the
ports are called. -/
theorem aligned_of_nodup {useM12 : Bool} {doc module : Json} {n : Netlist} {bc : ParsedBC}
    (hrep : Represents doc module n) (hparse : parsedBC useM12 doc = .ok bc)
    (hnum : n.Numbered) (hnodup : n.portBits.Nodup) : Aligned n bc := by
  rw [aligned_iff_sort hrep hparse, hnum.sort_bitsOf, hnum.sort_bitsOf]
  exact ⟨Netlist.inAppearanceOrder_of_nodup hnodup .input,
    Netlist.inAppearanceOrder_of_nodup hnodup .output⟩

/-- Two inputs, of which the one declared second has the smaller name, and an output. -/
def namedPorts : Netlist where
  ports := [("b", ⟨.input, [2, 3]⟩), ("a", ⟨.input, [4]⟩), ("y", ⟨.output, [5]⟩)]
  cells := [("nand", .gate ⟨.NAND, fun | .A => 2 | _ => 4, 5⟩)]

theorem namedPorts_aligned : ∃ bc, parsedBC false namedPorts.toJson = .ok bc ∧
    Aligned namedPorts bc := by
  have hrep : Represents namedPorts.toJson namedPorts.moduleJson namedPorts :=
    represents_toJson (by simp [Netlist.Fits, namedPorts, GateType.pins])
  have hparse : parsedBC false namedPorts.toJson = .ok
      { inputVector := [2, 3, 4], outputVector := [5],
        gateVector := [{ name := "NAND", in0 := 2, in1 := 4, out0 := 5 }],
        dependencyVector := [0, 0, 0, 0, 0, 1] } := by
    rfl
  have hnum : namedPorts.Numbered := by
    unfold Netlist.Numbered
    decide
  exact ⟨_, hparse, (aligned_iff hrep hparse hnum).mpr
    ⟨Netlist.inAppearanceOrder_of_nodup (by decide) .input,
      Netlist.inAppearanceOrder_of_nodup (by decide) .output⟩⟩

/-- An inverter whose input is passed through as the second bit of the output. -/
def passedSecond : Netlist where
  ports := [("a", ⟨.input, [2]⟩), ("y", ⟨.output, [3, 2]⟩)]
  cells := [("not", .gate ⟨.NOT, fun _ => 2, 3⟩)]

/-- The result lists the passed-through input first. -/
theorem passedSecond_misaligned :
    ¬ ∀ (useM12 : Bool) (doc module : Json) (n : Netlist) (bc : ParsedBC),
      Represents doc module n → parsedBC useM12 doc = .ok bc → n.Numbered → Aligned n bc := by
  intro h
  have hrep : Represents passedSecond.toJson passedSecond.moduleJson passedSecond :=
    represents_toJson (by simp [Netlist.Fits, passedSecond])
  have hparse : parsedBC false passedSecond.toJson = .ok
      { inputVector := [2], outputVector := [2, 3],
        gateVector := [{ name := "NOT", in0 := 2, out0 := 3 }],
        dependencyVector := [0, 0, 0, 1] } := by
    rfl
  have hnum : passedSecond.Numbered := by
    unfold Netlist.Numbered
    decide
  exact absurd (h false _ _ _ _ hrep hparse hnum 0).2 (by decide)

end Tangor
