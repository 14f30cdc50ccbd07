/-
The task graph computes the netlist.

A ciphertext *encodes* a bit by a relation `enc`, of which only one thing is assumed:
a codelet takes encodings of its operands to an encoding of the gate it is named
after (`ComputesGates`).  When the gate vector lists every gate after the drivers of
its operands, the tasks are a straight-line program over the slots, so the final
store solves the gates' equations, and by induction on `Netlist.Value` every slot
encodes the value of its net (`final_encodes`).

An output bit is computed when its net's slot is the output slot itself, which is the
case for the first output bit of a net a gate drives and for no other one.
`compile_correct` is the positive half of that and `outputsComputed_iff` is both.
-/
import Tangor.Proofs.Placement
import Tangor.TaskGraph.Straight

namespace Tangor

open YosysJSONparser TaskGraph Fallible

/-! ### Gates on encodings -/

/-- The gate a codelet is named after, on operands in TFHEpp's order. -/
def Codelet.meaning : Codelet → List Bool → Option Bool
  | .clHomNAND, [a, b] => some (!(a && b))
  | .clHomNOR, [a, b] => some (!(a || b))
  | .clHomXNOR, [a, b] => some (!(a ^^ b))
  | .clHomAND, [a, b] => some (a && b)
  | .clHomOR, [a, b] => some (a || b)
  | .clHomXOR, [a, b] => some (a ^^ b)
  | .clHomANDNY, [a, b] => some (!a && b)
  | .clHomANDYN, [a, b] => some (a && !b)
  | .clHomORNY, [a, b] => some (!a || b)
  | .clHomORYN, [a, b] => some (a || !b)
  | .clHomNOT, [a] => some (!a)
  | .clHomMUX, [s, whenTrue, whenFalse] => some (if s then whenTrue else whenFalse)
  | .clHomNMUX, [s, whenTrue, whenFalse] => some (!(if s then whenTrue else whenFalse))
  | _, _ => none

/-- The codelets compute the gates they are named after. -/
def ComputesGates {V : Type*} (enc : V → Bool → Prop) (gate : Codelet → List V → V) : Prop :=
  ∀ codelet operands bits b, List.Forall₂ enc operands bits → codelet.meaning bits = some b →
    enc (gate codelet operands) b

/-- The operand order of the tasks is the one their codelets expect. -/
theorem GateType.meaning_order (t : GateType) (v : Pin → Bool) :
    t.codelet.meaning (t.order.map v) = some (t.eval v) := by
  cases t <;> rfl

/-! ### Gates listed after the drivers of their operands -/

/-- The gate vector lists each gate after the drivers of its operands: it reads
neither its own net nor that of a later gate. -/
structure Netlist.Listed (n : Netlist) : Prop where
  noSelf : ∀ g ∈ n.gatesInOrder, g.y ∉ g.operands
  later : n.gatesInOrder.Pairwise fun g h => h.y ∉ g.operands

/-- Listed gates all have a value. -/
theorem Netlist.Listed.gate_value {n : Netlist} (hlisted : n.Listed) (hdriven : n.OperandsDriven)
    (x : Nat → Bool) : ∀ g ∈ n.gates, ∃ b, n.Value x g.y b := by
  have hfront : ∀ pre post, n.gatesInOrder = pre ++ post → ∀ g ∈ pre, ∃ b, n.Value x g.y b := by
    intro pre
    induction pre using List.reverseRecOn with
    | nil => simp
    | append_singleton pre g ih =>
        intro post hsplit
        rw [List.append_assoc, List.singleton_append] at hsplit
        intro h hh
        rcases List.mem_append.mp hh with hh | hh
        · exact ih (g :: post) hsplit h hh
        obtain rfl := List.mem_singleton.mp hh
        have hlater := hlisted.later
        rw [hsplit] at hlater
        have hg : h ∈ n.gatesInOrder := hsplit ▸ List.mem_append_right _ List.mem_cons_self
        have hoperand : ∀ i ∈ h.operands, ∃ b, n.Value x i b := by
          intro i hi
          rcases List.mem_append.mp (hdriven h (n.gatesInOrder_perm.mem_iff.mp hg) i hi) with hi' | hi'
          · rcases List.mem_append.mp hi' with hi' | hi'
            · exact ⟨_, .input hi'⟩
            · exact ⟨_, .register hi'⟩
          · obtain ⟨d, hd, rfl⟩ := List.mem_map.mp hi'
            have hd' := n.gatesInOrder_perm.mem_iff.mpr hd
            rw [hsplit] at hd'
            rcases List.mem_append.mp hd' with hd' | hd'
            · exact ih (h :: post) hsplit d hd'
            · rcases List.mem_cons.mp hd' with rfl | hd'
              · exact absurd hi (hlisted.noSelf d hg)
              · exact absurd hi
                  ((List.pairwise_cons.mp (List.pairwise_append.mp hlater).2.1).1 d hd')
        choose v hv using fun p : {p : Pin // p ∈ h.type.pins} =>
          hoperand (h.conn p) (List.mem_map_of_mem p.2)
        refine ⟨_, .gate (n.gatesInOrder_perm.mem_iff.mp hg)
          (fun p => if hp : p ∈ h.type.pins then v ⟨p, hp⟩ else false) ?_⟩
        intro p hp
        rw [dif_pos hp]
        exact hv ⟨p, hp⟩
  intro g hg
  exact hfront n.gatesInOrder [] (List.append_nil _).symm g (n.gatesInOrder_perm.mem_iff.mpr hg)

theorem Netlist.Listed.value {n : Netlist} (hlisted : n.Listed) (hdriven : n.OperandsDriven)
    (x : Nat → Bool) {id : Nat} (hid : id ∈ n.inputBits ++ n.registerBits ++ n.gateBits) :
    ∃ b, n.Value x id b := by
  rcases List.mem_append.mp hid with hid | hid
  · rcases List.mem_append.mp hid with hid | hid
    · exact ⟨_, .input hid⟩
    · exact ⟨_, .register hid⟩
  · obtain ⟨g, hg, rfl⟩ := List.mem_map.mp hid
    exact hlisted.gate_value hdriven x g hg

/-! ### The final store -/

section Final

variable {V : Type*} {n : Netlist} {bc : ParsedBC} {slot : Nat → Slot}
  {gate : Codelet → List V → V}

/-- The gates of a placed netlist with listed gates form a straight-line program. -/
theorem tasks_straight (hplaced : Placed n bc slot) (hcomb : n.Combinational)
    (honce : n.DrivenOnce) (hdriven : n.OperandsDriven) (hlisted : n.Listed) :
    Straight ((n.tasks slot).map (TaskInsert.toTask gate)) := by
  have hnets : ∀ g ∈ n.gatesInOrder, ∀ i ∈ g.operands, i ∈ n.nets := by
    intro g hg i hi
    have hmem := hdriven g (n.gatesInOrder_perm.mem_iff.mp hg) i hi
    rwa [hcomb, List.append_nil] at hmem
  have hy : ∀ g ∈ n.gatesInOrder, g.y ∈ n.nets :=
    fun g hg => Netlist.mem_nets_of_gate (n.gatesInOrder_perm.mem_iff.mp hg)
  -- A slot a gate reads is the slot of one of its operands, and of no other net.
  have hreads : ∀ g ∈ n.gatesInOrder, ∀ h ∈ n.gatesInOrder, h.y ∉ g.operands →
      slot h.y ∉ (g.insert slot).sources := by
    intro g hg h hh hnot hmem
    obtain ⟨p, hp, heq⟩ := List.mem_map.mp hmem
    have hop : g.conn p ∈ g.operands := List.mem_map_of_mem (GateType.mem_order.mp hp)
    exact hnot (hplaced.inj (hnets g hg _ hop) (hy h hh) heq ▸ hop)
  have hdistinct : (n.gatesInOrder.map Gate.y).Nodup :=
    (n.gatesInOrder_perm.map Gate.y).nodup_iff.mpr (List.nodup_append.mp honce).2.1
  rw [Netlist.tasks, List.map_map]
  refine ⟨?_, ?_⟩
  · intro t ht
    obtain ⟨g, hg, rfl⟩ := List.mem_map.mp ht
    exact hreads g hg g hg (hlisted.noSelf g hg)
  · rw [List.pairwise_map]
    refine ((List.pairwise_map.mp hdistinct).and hlisted.later).imp_of_mem ?_
    rintro g h hg hh ⟨hne, hnot⟩ hmem
    rcases List.mem_cons.mp hmem with heq | hmem
    · exact hne (hplaced.inj (hy g hg) (hy h hh) heq.symm)
    · exact hreads g hg h hh hnot hmem

/-- A slot that only gates of other slots write keeps its content. -/
theorem finalSlots_unwritten {s : Slot} (σ : Slot → V) (hs : ∀ g ∈ n.gates, slot g.y ≠ s) :
    finalSlots gate (n.tasks slot) σ s = σ s := by
  refine runAll_frame _ σ ?_
  intro t ht
  obtain ⟨task, htask, rfl⟩ := List.mem_map.mp ht
  obtain ⟨g, hg, rfl⟩ := List.mem_map.mp htask
  exact hs g (n.gatesInOrder_perm.mem_iff.mp hg)

/-- **Every slot ends with an encoding of the value of its net.** -/
theorem final_encodes {enc : V → Bool → Prop} (hgate : ComputesGates enc gate)
    (hplaced : Placed n bc slot) (hcomb : n.Combinational) (honce : n.DrivenOnce)
    (hdriven : n.OperandsDriven) (hlisted : n.Listed) {σ : Slot → V} {x : Nat → Bool}
    (hin : ∀ i id, bc.inputVector[i]? = some id → enc (σ (.cipherin i)) (x id)) {id : Nat}
    {b : Bool}
    (hval : n.Value x id b) : enc (finalSlots gate (n.tasks slot) σ (slot id)) b := by
  have hstraight : Straight ((n.tasks slot).map (TaskInsert.toTask gate)) :=
    tasks_straight hplaced hcomb honce hdriven hlisted
  induction hval with
  | input hi =>
      obtain ⟨i, hget, hslot⟩ := hplaced.input _ hi
      rw [hslot, finalSlots_unwritten σ fun g hg =>
        hplaced.gate_not_input (Netlist.mem_gateBits hg)]
      exact hin i _ hget
  | register hq =>
      rw [hcomb] at hq
      exact absurd hq (List.not_mem_nil)
  | @gate g hg v hpins ih =>
      have hmem : (g.insert slot).toTask gate ∈ (n.tasks slot).map (TaskInsert.toTask gate) :=
        List.mem_map_of_mem (List.mem_map_of_mem (n.gatesInOrder_perm.mem_iff.mpr hg))
      have hsolve := hstraight.solves σ hmem
      show enc (runAll _ σ ((g.insert slot).toTask gate).target) _
      rw [hsolve]
      refine hgate _ _ (g.type.order.map v) _ ?_ (g.type.meaning_order v)
      show List.Forall₂ enc ((g.type.order.map fun p => slot (g.conn p)).map _) _
      rw [List.map_map, List.forall₂_map_left_iff, List.forall₂_map_right_iff, List.forall₂_same]
      exact fun p hp => ih p (GateType.mem_order.mp hp)

end Final

/-! ### The output vector -/

/-- The output slot `k` encodes the value of the net `id`. -/
structure OutputComputed {V : Type*} (n : Netlist) (x : Nat → Bool) (enc : V → Bool → Prop)
    (final : Slot → V) (k id : Nat) : Prop where
  exists_value : ∃ b, n.Value x id b
  encodes : ∀ b, n.Value x id b → enc (final (.cipherout k)) b

theorem outputVector_nodup {bc : ParsedBC} {n : Netlist} (hp : Parsed bc n.portReads n.cellReads) :
    bc.outputVector.Nodup ↔ n.outputBits.Nodup := by
  rw [hp.output, (sort_perm _).nodup_iff, n.outputBits_perm.nodup_iff]

theorem mem_outputVector {bc : ParsedBC} {n : Netlist} (hp : Parsed bc n.portReads n.cellReads)
    {id : Nat} : id ∈ bc.outputVector ↔ id ∈ n.outputBits := by
  rw [hp.output, mem_sort, n.outputBits_perm.mem_iff]

/-- An output bit that a gate drives is looked up in its own slot, if it is listed once. -/
theorem Placed.cipherout {n : Netlist} {bc : ParsedBC} {slot : Nat → Slot}
    (h : Placed n bc slot) (hp : Parsed bc n.portReads n.cellReads) (hnodup : n.outputBits.Nodup)
    {k id : Nat} (hk : bc.outputVector[k]? = some id) (hgate : id ∈ n.gateBits) :
    slot id = .cipherout k := by
  have hmem := (mem_outputVector hp).mp (List.mem_of_getElem? hk)
  obtain ⟨i, hi, hslot⟩ := h.output id hgate hmem
  rw [hslot, getElem?_inj_of_nodup ((outputVector_nodup hp).mpr hnodup)
    (getElem?_of_idxOf? hi) hk]

/-- Outputs that gates drive and that are listed once are computed. -/
theorem outputComputed {useM12 : Bool} {doc module : Json} {n : Netlist} {bc : ParsedBC}
    (hrep : Represents doc module n) (hparse : parsedBC useM12 doc = .ok bc)
    (hcomb : n.Combinational) (honce : n.DrivenOnce) (hdriven : n.OperandsDriven)
    (houts : ∀ o ∈ n.outputBits, o ∈ n.gateBits) (hnodup : n.outputBits.Nodup)
    (hlisted : n.Listed) {V : Type*} {enc : V → Bool → Prop} {gate : Codelet → List V → V}
    (hgate : ComputesGates enc gate) {σ : Slot → V} {x : Nat → Bool}
    (hin : ∀ i id, bc.inputVector[i]? = some id → enc (σ (.cipherin i)) (x id)) {k id : Nat}
    (hk : bc.outputVector[k]? = some id) :
    OutputComputed n x enc (finalSlots gate (n.tasks (slotOf bc)) σ) k id := by
  have hp := parsed_represents hrep hparse
  have hplaced := placed hrep hparse hcomb honce
  have hmem : id ∈ n.outputBits := (mem_outputVector hp).mp (List.mem_of_getElem? hk)
  refine ⟨hlisted.value hdriven x (List.mem_append_right _ (houts id hmem)), ?_⟩
  intro b hb
  rw [← hplaced.cipherout hp hnodup hk (houts id hmem)]
  exact final_encodes hgate hplaced hcomb honce hdriven hlisted hin hb

/-- **Compilation is correct**: for a combinational netlist whose outputs are driven by
gates and listed once, and whose gates are listed after the drivers of their operands,
the tasks of the builder, run in the order of submission, leave in every output slot
an encoding of the value of the output's net. -/
theorem compile_correct {useM12 : Bool} {doc module : Json} {n : Netlist} {bc : ParsedBC}
    (hrep : Represents doc module n) (hparse : parsedBC useM12 doc = .ok bc)
    (hcomb : n.Combinational) (honce : n.DrivenOnce) (hdriven : n.OperandsDriven)
    (houts : ∀ o ∈ n.outputBits, o ∈ n.gateBits) (hnodup : n.outputBits.Nodup)
    (hlisted : n.Listed) {V : Type*} {enc : V → Bool → Prop} {gate : Codelet → List V → V}
    (hgate : ComputesGates enc gate) {σ : Slot → V} {x : Nat → Bool}
    (hin : ∀ i id, bc.inputVector[i]? = some id → enc (σ (.cipherin i)) (x id)) :
    ∃ submissions, starpuBuildGraph useM12 bc = .ok submissions ∧
      ∀ k id, bc.outputVector[k]? = some id →
        OutputComputed n x enc (finalSlots gate (insertedTasks submissions) σ) k id := by
  refine ⟨_, build_placed hrep hparse hcomb honce hdriven, ?_⟩
  rw [insertedTasks_inserted]
  intro k id hk
  exact outputComputed hrep hparse hcomb honce hdriven houts hnodup hlisted hgate hin hk

/-- Plain booleans encode themselves. -/
def boolGate (codelet : Codelet) (operands : List Bool) : Bool :=
  (codelet.meaning operands).getD false

theorem boolGate_computes : ComputesGates (· = ·) boolGate := by
  intro codelet operands bits b hall hmeaning
  rw [List.forall₂_eq_eq_eq] at hall
  rw [boolGate, hall, hmeaning, Option.getD_some]

theorem sharedNand_driven : sharedNand.OperandsDriven := by
  unfold Netlist.OperandsDriven
  decide

theorem sharedNand_listed : sharedNand.Listed := ⟨by decide, by decide⟩

/-- The values of three pins. -/
def threePins (a b s : Bool) : Pin → Bool
  | .A => a
  | .B => b
  | .S => s

/-- What the two outputs are worth. -/
theorem sharedNand_value (x : Nat → Bool) :
    sharedNand.Value x 6 (x 2 && x 3) ∧
      sharedNand.Value x 7 (if x 4 then !(x 2 && x 3) else x 2) := by
  have hin : ∀ id ∈ [2, 3, 4], sharedNand.Value x id (x id) := fun id hid => .input hid
  have hgate : ∀ (g : Gate) (v : Pin → Bool), g ∈ sharedNand.gates →
      (∀ p ∈ g.type.pins, sharedNand.Value x (g.conn p) (v p)) →
      sharedNand.Value x g.y (g.type.eval v) := fun g v hg hpins => .gate hg v hpins
  have hnand : sharedNand.Value x 5 (!(x 2 && x 3)) :=
    hgate _ (threePins (x 2) (x 3) (x 3)) List.mem_cons_self fun p _ => by
      cases p <;> exact hin _ (by decide)
  refine ⟨?_, ?_⟩
  · rw [← Bool.not_not (x 2 && x 3)]
    exact hgate _ (fun _ => !(x 2 && x 3)) (List.mem_cons_of_mem _ List.mem_cons_self)
      fun p _ => hnand
  · refine hgate _ (threePins (x 2) (!(x 2 && x 3)) (x 4))
      (List.mem_cons_of_mem _ (List.mem_cons_of_mem _ List.mem_cons_self)) fun p _ => ?_
    cases p with
    | A => exact hin 2 (by decide)
    | B => exact hnand
    | S => exact hin 4 (by decide)

/-- Both inputs are set and the multiplexer passes the first one on. -/
theorem sharedNand_computed : ∃ bc submissions, parsedBC false sharedNand.toJson = .ok bc ∧
    starpuBuildGraph false bc = .ok submissions ∧
    finalSlots boolGate (insertedTasks submissions)
      (initialSlots [true, true, false] false false) (.cipherout 0) = true ∧
    finalSlots boolGate (insertedTasks submissions)
      (initialSlots [true, true, false] false false) (.cipherout 1) = true := by
  have hin : ∀ i id : Nat, [2, 3, 4][i]? = some id →
      initialSlots [true, true, false] false false (.cipherin i) = decide (id ≠ 4) := by
    intro i id hi
    match i with
    | 0 | 1 | 2 =>
        obtain rfl := Option.some.inj hi
        rfl
    | _ + 3 => exact absurd hi (by simp)
  obtain ⟨submissions, hbuild, hout⟩ := compile_correct sharedNand_represents
    (sharedNand_parsed false) rfl (show List.Nodup _ by decide) sharedNand_driven (by decide)
    (by decide) sharedNand_listed boolGate_computes hin
  obtain ⟨hy, hz⟩ := sharedNand_value fun id => decide (id ≠ 4)
  exact ⟨_, submissions, sharedNand_parsed false, hbuild, (hout 0 6 rfl).encodes true hy,
    (hout 1 7 rfl).encodes true hz⟩

end Tangor
