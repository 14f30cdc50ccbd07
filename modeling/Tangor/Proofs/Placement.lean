/-
The task graph of a netlist without flip-flops.

Once every net has a slot, the builder's output is no longer about ids and names: it
is one task for each gate, in the order of the gate vector, on the slots of the
gate's nets (`build_gates`).  `Placed` is what the slots satisfy, `placed` says that a
parsed combinational netlist satisfies it, and from there on a task graph is
`Gate.insert` mapped over the gates.
-/
import Tangor.Proofs.SearchPointer
import Tangor.Proofs.Schedule

namespace Tangor

open YosysJSONparser TaskGraph Fallible

/-! ### The task of a gate -/

def GateType.codelet : GateType → Codelet
  | .NOT => .clHomNOT
  | .NAND => .clHomNAND
  | .NOR => .clHomNOR
  | .XNOR => .clHomXNOR
  | .AND => .clHomAND
  | .OR => .clHomOR
  | .XOR => .clHomXOR
  | .ANDNOT => .clHomANDYN
  | .ORNOT => .clHomORYN
  | .MUX => .clHomMUX
  | .NMUX => .clHomNMUX

/-- The pins in the order the task reads them: a multiplexer takes the select first,
and then the operand for a set select. -/
def GateType.order : GateType → List Pin
  | .NOT => [.A]
  | .MUX | .NMUX => [.S, .B, .A]
  | _ => [.A, .B]

def GateType.priority : GateType → Nat
  | .NOT | .MUX | .NMUX => 0
  | _ => 1

theorem GateType.mem_order {t : GateType} {p : Pin} : p ∈ t.order ↔ p ∈ t.pins := by
  cases t <;> cases p <;> decide

/-- The task of a gate whose nets have the slots `slot`. -/
def Gate.insert (slot : Nat → Slot) (g : Gate) : TaskInsert where
  codelet := g.type.codelet
  target := slot g.y
  sources := g.type.order.map fun p => slot (g.conn p)
  priority := g.type.priority

section Submit

variable {useM12 : Bool} {bc : ParsedBC} {t : GateType} {gate : GateStruct}
  (hname : gate.name = t.gateName) {y a b s : Slot}
  (hY : searchPointer gate.out0 bc "output" = .ok y) (hA : searchPointer gate.in0 bc "in0" = .ok a)
include hname hY hA

theorem submitGate_in1 (ht : t.order = [.A]) :
    submitGate useM12 bc gate = .ok (.inserted ⟨t.codelet, y, [a], t.priority⟩) := by
  cases t with
  | NOT =>
      simp only [submitGate, hname, hY, hA, ok_bind]
      rfl
  | _ => exact absurd ht (by decide)

theorem submitGate_in2 (ht : t.order = [.A, .B]) (hB : searchPointer gate.in1 bc "in1" = .ok b) :
    submitGate useM12 bc gate = .ok (.inserted ⟨t.codelet, y, [a, b], t.priority⟩) := by
  cases t with
  | NOT | MUX | NMUX => exact absurd ht (by decide)
  | _ =>
      simp only [submitGate, hname, hY, hA, hB, ok_bind]
      rfl

theorem submitGate_in3 (ht : t.order = [.S, .B, .A]) (hB : searchPointer gate.in1 bc "in1" = .ok b)
    (hS : searchPointer gate.in2 bc "in2" = .ok s) :
    submitGate useM12 bc gate = .ok (.inserted ⟨t.codelet, y, [s, b, a], t.priority⟩) := by
  cases t with
  | MUX | NMUX =>
      simp only [submitGate, hname, hY, hA, hB, hS, ok_bind]
      cases useM12 <;> rfl
  | _ => exact absurd ht (by decide)

end Submit

/-- **A gate whose nets are found is submitted as its task.** -/
theorem submitGate_struct {useM12 : Bool} {bc : ParsedBC} {slot : Nat → Slot} {g : Gate}
    (hlook : ∀ id ∈ g.y :: g.operands, ∀ name, searchPointer id bc name = .ok (slot id)) :
    submitGate useM12 bc g.struct = .ok (.inserted (g.insert slot)) := by
  have hY : searchPointer g.struct.out0 bc "output" = .ok (slot g.y) :=
    hlook _ (List.mem_cons_self) _
  have hpin : ∀ p ∈ g.type.pins, ∀ name,
      searchPointer (g.conn p) bc name = .ok (slot (g.conn p)) :=
    fun p hp name => hlook _ (List.mem_cons_of_mem _ (List.mem_map_of_mem hp)) name
  have hA : searchPointer g.struct.in0 bc "in0" = .ok (slot (g.conn .A)) :=
    hpin .A (by cases g.type <;> decide) _
  have hB : .B ∈ g.type.pins → searchPointer g.struct.in1 bc "in1" = .ok (slot (g.conn .B)) := by
    intro h
    rw [Gate.struct, if_pos h]
    exact hpin .B h _
  have hS : .S ∈ g.type.pins → searchPointer g.struct.in2 bc "in2" = .ok (slot (g.conn .S)) := by
    intro h
    rw [Gate.struct, if_pos h]
    exact hpin .S h _
  unfold Gate.insert
  cases ht : g.type with
  | NOT => exact submitGate_in1 (congrArg GateType.gateName ht) hY hA rfl
  | MUX | NMUX =>
      exact submitGate_in3 (congrArg GateType.gateName ht) hY hA rfl (hB (by rw [ht]; decide))
        (hS (by rw [ht]; decide))
  | _ => exact submitGate_in2 (congrArg GateType.gateName ht) hY hA rfl (hB (by rw [ht]; decide))

/-! ### What a round submits -/

/-- The id at the position the parser stored the pin's net in. -/
def YosysJSONparser.GateStruct.pinId (gate : GateStruct) : Pin → Nat
  | .A => gate.in0
  | .B => gate.in1
  | .S => gate.in2

/-- What the builder calls the position. -/
def Pin.position : Pin → String
  | .A => "in0"
  | .B => "in1"
  | .S => "in2"

/-- The round of `gate` inserted the task of `t` on the slots of the gate's nets. -/
structure Submits (bc : ParsedBC) (gate : GateStruct) (t : GateType) (task : TaskInsert) :
    Prop where
  codelet : task.codelet = t.codelet
  target : searchPointer gate.out0 bc "output" = .ok task.target
  sources : List.Forall₂ (fun p s => searchPointer (gate.pinId p) bc p.position = .ok s) t.order
    task.sources

/-- **A round inserts the task of the type the gate is named after, or no task at all
when the gate is named after none.** -/
theorem submitGate_cases {useM12 : Bool} {bc : ParsedBC} {gate : GateStruct}
    {submission : Submission} (h : submitGate useM12 bc gate = .ok submission) :
    (∃ t task, gate.name = GateType.gateName t ∧ submission = .inserted task ∧
      Submits bc gate t task) ∨
    ((∀ t, gate.name ≠ GateType.gateName t) ∧ submission.task? = none) := by
  by_cases hnamed : ∃ t, gate.name = GateType.gateName t
  · obtain ⟨t, hname⟩ := hnamed
    refine Or.inl ⟨t, ?_⟩
    simp only [submitGate, hname] at h
    cases t with
    | NOT =>
        rw [if_pos (by decide)] at h
        simp only [bind_eq_ok, pure_eq_ok] at h
        obtain ⟨y, hy, a, ha, rfl⟩ := h
        exact ⟨_, hname, rfl, rfl, hy, .cons ha .nil⟩
    | MUX | NMUX =>
        rw [if_neg (by decide), if_neg (by decide),
          if_pos (by cases useM12 <;> decide)] at h
        simp only [bind_eq_ok] at h
        obtain ⟨y, hy, a, ha, b, hb, s, hs, h⟩ := h
        simp only [GateType.gateName, if_true, String.reduceEq, if_false, pure_eq_ok] at h
        subst h
        exact ⟨_, hname, rfl, rfl, hy, .cons hs (.cons hb (.cons ha .nil))⟩
    | _ =>
        rw [if_neg (by decide), if_pos (by decide)] at h
        simp only [bind_eq_ok] at h
        obtain ⟨y, hy, a, ha, b, hb, h⟩ := h
        simp only [GateType.gateName, if_true, String.reduceEq, if_false, pure_eq_ok] at h
        subst h
        exact ⟨_, hname, rfl, rfl, hy, .cons ha (.cons hb .nil)⟩
  · have hnone : ∀ t, gate.name ≠ GateType.gateName t := fun t ht => hnamed ⟨t, ht⟩
    refine Or.inr ⟨hnone, ?_⟩
    have hin2 : gate.name ∉ in2out1gates := by
      simpa [in2out1gates] using ⟨hnone .NAND, hnone .NOR, hnone .XNOR, hnone .AND, hnone .OR,
        hnone .XOR, hnone .ANDNOT, hnone .ORNOT⟩
    have hnot : gate.name ≠ "NOT" := hnone .NOT
    rw [submitGate, if_neg hnot, if_neg hin2] at h
    split at h
    · simp only [bind_eq_ok] at h
      obtain ⟨_, _, _, _, _, _, _, _, h⟩ := h
      rw [if_neg (show gate.name ≠ "MUX" from hnone .MUX),
        if_neg (show gate.name ≠ "NMUX" from hnone .NMUX), pure_eq_ok] at h
      subst h
      rfl
    · rw [pure_eq_ok] at h
      subst h
      rfl

/-! ### The slots of a combinational netlist -/

/-- The nets something drives, when no flip-flop does. -/
def Netlist.nets (n : Netlist) : List Nat := n.inputBits ++ n.gateBits

/-- The slots of a netlist's nets, as the builder finds them. -/
structure Placed (n : Netlist) (bc : ParsedBC) (slot : Nat → Slot) : Prop where
  lookup : ∀ id ∈ n.nets, ∀ name, searchPointer id bc name = .ok (slot id)
  input : ∀ id ∈ n.inputBits, ∃ i, bc.inputVector[i]? = some id ∧ slot id = .cipherin i
  output : ∀ id ∈ n.gateBits, id ∈ n.outputBits →
    ∃ i, bc.outputVector.idxOf? id = some i ∧ slot id = .cipherout i
  wire : ∀ id ∈ n.gateBits, id ∉ n.outputBits → ∃ i, slot id = .cipherwire i

/-- The slot the lookups of a net agree on. -/
def slotOf (bc : ParsedBC) (id : Nat) : Slot :=
  match searchPointer id bc "" with
  | .ok slot => slot
  | .error _ => .cipherin 0

theorem slotOf_eq {bc : ParsedBC} {id : Nat} {slot : Slot}
    (h : ∀ name, searchPointer id bc name = .ok slot) : slotOf bc id = slot := by
  rw [slotOf, h]

namespace Placed

variable {n : Netlist} {bc : ParsedBC} {slot : Nat → Slot}

/-- Distinct nets have distinct slots. -/
theorem inj (h : Placed n bc slot) {id id' : Nat} (hid : id ∈ n.nets) (hid' : id' ∈ n.nets)
    (heq : slot id = slot id') : id = id' :=
  searchPointer_inj (h.lookup id hid "") (heq ▸ h.lookup id' hid' "")

/-- No gate writes an input. -/
theorem gate_not_input (h : Placed n bc slot) {id i : Nat} (hid : id ∈ n.gateBits) :
    slot id ≠ .cipherin i := by
  by_cases hout : id ∈ n.outputBits
  · obtain ⟨k, -, hk⟩ := h.output id hid hout
    simp [hk]
  · obtain ⟨k, hk⟩ := h.wire id hid hout
    simp [hk]

/-- A gate that writes an output slot drives the first output bit with its net. -/
theorem idxOf_of_cipherout (h : Placed n bc slot) {id k : Nat} (hid : id ∈ n.gateBits)
    (hk : slot id = .cipherout k) : bc.outputVector.idxOf? id = some k := by
  by_cases hout : id ∈ n.outputBits
  · obtain ⟨i, hi, hslot⟩ := h.output id hid hout
    obtain rfl : i = k := by simpa [hslot] using hk
    exact hi
  · obtain ⟨i, hslot⟩ := h.wire id hid hout
    exact absurd (hslot.symm.trans hk) (by simp)

end Placed

theorem Netlist.mem_nets_of_gate {n : Netlist} {g : Gate} (hg : g ∈ n.gates) : g.y ∈ n.nets :=
  List.mem_append_right _ (Netlist.mem_gateBits hg)

/-- **A parsed combinational netlist has its nets placed.** -/
theorem placed {useM12 : Bool} {doc module : Json} {n : Netlist} {bc : ParsedBC}
    (hrep : Represents doc module n) (hparse : parsedBC useM12 doc = .ok bc)
    (hcomb : n.Combinational) (honce : n.DrivenOnce) : Placed n bc (slotOf bc) := by
  have hp := parsed_represents hrep hparse
  have hdff : dffPairs n.cellReads = [] := by
    have hperm := n.dffQ_perm
    rw [hcomb, List.perm_nil, List.map_eq_nil_iff] at hperm
    exact hperm
  have hq : bc.dffQVector = [] := by rw [hp.dffQ, hdff, List.map_nil]
  have hd : bc.dffDVector = [] := by rw [hp.dffD, hdff, List.map_nil]
  have hin : ∀ {id}, id ∈ bc.inputVector ↔ id ∈ n.inputBits := by
    intro id
    rw [hp.input, mem_sort, n.inputBits_perm.mem_iff]
  have hout : ∀ {id}, id ∈ bc.outputVector ↔ id ∈ n.outputBits := by
    intro id
    rw [hp.output, mem_sort, n.outputBits_perm.mem_iff]
  have hgate : ∀ {id}, id ∈ gateOuts n.cellReads ↔ id ∈ n.gateBits := n.gateOuts_perm.mem_iff
  have hnotin : ∀ {id}, id ∈ n.gateBits → id ∉ bc.inputVector := by
    intro id hid hmem
    exact (List.nodup_append.mp honce).2.2 id (List.mem_append_left _ (hin.mp hmem)) id hid rfl
  have hnotwire : ∀ {id}, id ∈ n.outputBits → id ∉ bc.wireVector := by
    intro id hid hmem
    exact wire_not_output hrep.single hparse id hmem (hout.mpr hid)
  have hkept : ∀ {id}, id ∈ n.gateBits → id ∈ bc.wireVector ∨ id ∈ bc.outputVector :=
    fun hid => hp.outsKept _ (hgate.mpr hid)
  refine ⟨?_, ?_, ?_, ?_⟩
  · intro id hid name
    have hmem : id ∈ bc.inputVector ∨ id ∈ bc.wireVector ∨ id ∈ bc.outputVector :=
      (List.mem_append.mp hid).imp hin.mpr hkept
    obtain ⟨slot, hslot⟩ := searchPointer_total hq hd hmem
    rw [slotOf_eq hslot, hslot]
  · intro id hid
    obtain ⟨i, hi, hslot⟩ := searchPointer_input hq hd (hin.mpr hid)
    exact ⟨i, hi, slotOf_eq hslot⟩
  · intro id hid hmem
    obtain ⟨i, hi, hslot⟩ := searchPointer_output hq hd (hnotin hid) (hnotwire hmem) (hout.mpr hmem)
    exact ⟨i, hi, slotOf_eq hslot⟩
  · intro id hid hmem
    obtain ⟨i, -, hslot⟩ := searchPointer_wire hq hd (hnotin hid)
      ((hkept hid).resolve_right fun h => hmem (hout.mp h))
    exact ⟨i, slotOf_eq hslot⟩

/-! ### The task graph -/

/-- The tasks of a netlist's gates, in the order of the gate vector. -/
def Netlist.tasks (n : Netlist) (slot : Nat → Slot) : List TaskInsert :=
  n.gatesInOrder.map (Gate.insert slot)

/-- **The builder submits one task for each gate, in the order of the gate vector.** -/
theorem build_gates {useM12 : Bool} {n : Netlist} {bc : ParsedBC} {slot : Nat → Slot}
    (hgates : bc.gateVector = n.gatesInOrder.map Gate.struct)
    (hlook : ∀ g ∈ n.gates, ∀ id ∈ g.y :: g.operands, ∀ name,
      searchPointer id bc name = .ok (slot id)) :
    starpuBuildGraph useM12 bc = .ok ((n.tasks slot).map Submission.inserted) := by
  rw [starpuBuildGraph, hgates, mapM_eq_ok, Netlist.tasks, List.map_map,
    List.forall₂_map_left_iff, List.forall₂_map_right_iff, List.forall₂_same]
  exact fun g hg => submitGate_struct (hlook g (n.gatesInOrder_perm.mem_iff.mp hg))

theorem insertedTasks_inserted (tasks : List TaskInsert) :
    insertedTasks (tasks.map Submission.inserted) = tasks := by
  rw [insertedTasks, List.filterMap_map]
  exact List.filterMap_some

/-- The gate vector of a parsed netlist. -/
theorem gateVector_eq {bc : ParsedBC} {n : Netlist} (hp : Parsed bc n.portReads n.cellReads) :
    bc.gateVector = n.gatesInOrder.map Gate.struct := by
  rw [hp.gates, n.gateReads_cellReads, List.map_map]
  rfl

/-- The build of a parsed combinational netlist. -/
theorem build_placed {useM12 : Bool} {doc module : Json} {n : Netlist} {bc : ParsedBC}
    (hrep : Represents doc module n) (hparse : parsedBC useM12 doc = .ok bc)
    (hcomb : n.Combinational) (honce : n.DrivenOnce) (hdriven : n.OperandsDriven) :
    starpuBuildGraph useM12 bc = .ok ((n.tasks (slotOf bc)).map Submission.inserted) := by
  have hplaced := placed hrep hparse hcomb honce
  refine build_gates (gateVector_eq (parsed_represents hrep hparse)) ?_
  intro g hg id hid
  refine hplaced.lookup id ?_
  rcases List.mem_cons.mp hid with rfl | hid
  · exact Netlist.mem_nets_of_gate hg
  · have hmem := hdriven g hg id hid
    rwa [hcomb, List.append_nil] at hmem

end Tangor
