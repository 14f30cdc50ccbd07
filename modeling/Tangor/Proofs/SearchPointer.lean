/-
Which slot a net is looked up in.

`Slot.net` reads a slot backwards: the id at its position of the vector it belongs
to.  A lookup that succeeds returns a slot of the id it looked for
(`searchPointer_net`), so it stays inside the vector and two ids never get one slot.

A lookup succeeds only while there is no flip-flop, because the search for a register
input runs from the one DFF vector into the other (`searchPointer_dff`).  Without
flip-flops every id that is an input, a wire or an output is found, inputs first.

`SlotsResolved` is the contract the task graph needs of the lookup, for all the ids
of a netlist at once, and `slotsResolved_iff` says which netlists it holds for.
-/
import Tangor.StarpuBuildGraph
import Tangor.Proofs.Represents

namespace Tangor

open YosysJSONparser Fallible

/-- The id at the position the slot stands for. -/
def Slot.net (bc : ParsedBC) : Slot → Option Nat
  | .cipherin i => bc.inputVector[i]?
  | .cipherout i => bc.outputVector[i]?
  | .cipherdffq i => bc.dffQVector[i]?
  | .cipherdffd i => bc.dffDVector[i]?
  | .cipherwire i => bc.wireVector[i]?

/-! ### One lookup -/

theorem getElem?_of_idxOf? {ids : List Nat} {id i : Nat} (h : ids.idxOf? id = some i) :
    ids[i]? = some id := by
  obtain ⟨hlt, heq, -⟩ := List.idxOf?_eq_some_iff.mp h
  rw [List.getElem?_eq_getElem hlt, heq]

theorem idxOf?_of_mem {ids : List Nat} {id : Nat} (h : id ∈ ids) : ∃ i, ids.idxOf? id = some i :=
  Option.isSome_iff_exists.mp (List.isSome_idxOf?.mpr h)

theorem idxOf?_of_notMem {ids : List Nat} {id : Nat} (h : id ∉ ids) : ids.idxOf? id = none :=
  List.idxOf?_eq_none_iff.mpr h

/-- The position of an element of a list without repetitions. -/
theorem getElem?_inj_of_nodup {ids : List Nat} (hnd : ids.Nodup) {id i k : Nat}
    (hi : ids[i]? = some id) (hk : ids[k]? = some id) : i = k := by
  obtain ⟨hlt, heq⟩ := List.getElem?_eq_some_iff.mp hi
  obtain ⟨hlt', heq'⟩ := List.getElem?_eq_some_iff.mp hk
  exact hnd.getElem_inj_iff.mp (heq.trans heq'.symm)

/-- The search across two vectors never finds anything, and runs only between two
empty ones. -/
theorem findAcross_eq_ok {first last : List Nat} {id : Nat} {found : Option Nat}
    (h : findAcross first last id = .ok found) : first = [] ∧ last = [] ∧ found = none := by
  unfold findAcross at h
  split at h
  · exact ⟨rfl, rfl, (Except.ok.inj h).symm⟩
  · exact absurd h (by simp)

/-- The cases of a lookup that succeeds. -/
theorem searchPointer_cases {id : Nat} {bc : ParsedBC} {bitname : String} {slot : Slot}
    (h : searchPointer id bc bitname = .ok slot) :
    (bc.dffQVector = [] ∧ bc.dffDVector = []) ∧
      ((∃ i, bc.inputVector.idxOf? id = some i ∧ slot = .cipherin i) ∨
        (id ∉ bc.inputVector ∧ ∃ i, bc.wireVector.idxOf? id = some i ∧ slot = .cipherwire i) ∨
        (id ∉ bc.inputVector ∧ id ∉ bc.wireVector ∧
          ∃ i, bc.outputVector.idxOf? id = some i ∧ slot = .cipherout i)) := by
  simp only [searchPointer, bind_eq_ok] at h
  obtain ⟨found, hfind, h⟩ := h
  obtain ⟨hq, hd, rfl⟩ := findAcross_eq_ok hfind
  refine ⟨⟨hq, hd⟩, ?_⟩
  rw [hq, List.idxOf?_nil] at h
  cases hin : bc.inputVector.idxOf? id with
  | some i =>
      rw [hin] at h
      exact Or.inl ⟨i, rfl, (Except.ok.inj h).symm⟩
  | none =>
      rw [hin] at h
      have hin' := List.idxOf?_eq_none_iff.mp hin
      cases hwire : bc.wireVector.idxOf? id with
      | some i =>
          rw [hwire] at h
          exact Or.inr (Or.inl ⟨hin', i, rfl, (Except.ok.inj h).symm⟩)
      | none =>
          rw [hwire] at h
          have hwire' := List.idxOf?_eq_none_iff.mp hwire
          cases hout : bc.outputVector.idxOf? id with
          | some i =>
              rw [hout] at h
              exact Or.inr (Or.inr ⟨hin', hwire', i, rfl, (Except.ok.inj h).symm⟩)
          | none =>
              rw [hout] at h
              exact absurd h (by simp)

/-- **A lookup that succeeds returns a slot of the id.** -/
theorem searchPointer_net {id : Nat} {bc : ParsedBC} {bitname : String} {slot : Slot}
    (h : searchPointer id bc bitname = .ok slot) : slot.net bc = some id := by
  rcases (searchPointer_cases h).2 with ⟨i, hi, rfl⟩ | ⟨-, i, hi, rfl⟩ | ⟨-, -, i, hi, rfl⟩
  · exact getElem?_of_idxOf? hi
  · exact getElem?_of_idxOf? hi
  · exact getElem?_of_idxOf? hi

theorem searchPointer_inj {id id' : Nat} {bc : ParsedBC} {name name' : String} {slot : Slot}
    (h : searchPointer id bc name = .ok slot) (h' : searchPointer id' bc name' = .ok slot) :
    id = id' :=
  Option.some.inj ((searchPointer_net h).symm.trans (searchPointer_net h'))

/-- **With a flip-flop no lookup is defined.** -/
theorem searchPointer_dff {id : Nat} {bc : ParsedBC} {bitname : String} {slot : Slot}
    (h : searchPointer id bc bitname = .ok slot) : bc.dffQVector = [] :=
  (searchPointer_cases h).1.1

section NoFlipFlop

variable {bc : ParsedBC} (hq : bc.dffQVector = []) (hd : bc.dffDVector = []) {id : Nat}
include hq hd

theorem searchPointer_input (hin : id ∈ bc.inputVector) :
    ∃ i, bc.inputVector[i]? = some id ∧
      ∀ bitname, searchPointer id bc bitname = .ok (.cipherin i) := by
  obtain ⟨i, hi⟩ := idxOf?_of_mem hin
  refine ⟨i, getElem?_of_idxOf? hi, fun bitname => ?_⟩
  simp only [searchPointer, hq, hd, findAcross, ok_bind, hi]

theorem searchPointer_wire (hin : id ∉ bc.inputVector) (hwire : id ∈ bc.wireVector) :
    ∃ i, bc.wireVector[i]? = some id ∧
      ∀ bitname, searchPointer id bc bitname = .ok (.cipherwire i) := by
  obtain ⟨i, hi⟩ := idxOf?_of_mem hwire
  refine ⟨i, getElem?_of_idxOf? hi, fun bitname => ?_⟩
  simp only [searchPointer, hq, hd, findAcross, ok_bind, idxOf?_of_notMem hin, hi,
    List.idxOf?_nil]

theorem searchPointer_output (hin : id ∉ bc.inputVector) (hwire : id ∉ bc.wireVector)
    (hout : id ∈ bc.outputVector) :
    ∃ i, bc.outputVector.idxOf? id = some i ∧
      ∀ bitname, searchPointer id bc bitname = .ok (.cipherout i) := by
  obtain ⟨i, hi⟩ := idxOf?_of_mem hout
  refine ⟨i, hi, fun bitname => ?_⟩
  simp only [searchPointer, hq, hd, findAcross, ok_bind, idxOf?_of_notMem hin,
    idxOf?_of_notMem hwire, hi, List.idxOf?_nil]

/-- **Without flip-flops every input, wire and output is found.** -/
theorem searchPointer_total
    (hid : id ∈ bc.inputVector ∨ id ∈ bc.wireVector ∨ id ∈ bc.outputVector) :
    ∃ slot, ∀ bitname, searchPointer id bc bitname = .ok slot := by
  by_cases hin : id ∈ bc.inputVector
  · obtain ⟨i, -, hi⟩ := searchPointer_input hq hd hin
    exact ⟨_, hi⟩
  · by_cases hwire : id ∈ bc.wireVector
    · obtain ⟨i, -, hi⟩ := searchPointer_wire hq hd hin hwire
      exact ⟨_, hi⟩
    · obtain ⟨i, -, hi⟩ := searchPointer_output hq hd hin hwire
        ((hid.resolve_left hin).resolve_left hwire)
      exact ⟨_, hi⟩

end NoFlipFlop

/-! ### All lookups of a netlist -/

/-- What the task graph needs of the lookup, for every net a gate reads or drives. -/
structure SlotsResolved (bc : ParsedBC) (ports : List PortRead) (cells : List CellRead) :
    Prop where
  /-- The lookup stays within the vectors and ends at an element that stands for the net. -/
  found : ∀ id ∈ gateIns cells ++ gateOuts cells, ∀ bitname,
    ∃ slot, searchPointer id bc bitname = .ok slot ∧ slot.net bc = some id
  input : ∀ id ∈ gateIns cells, id ∈ inputBits ports → ∀ bitname,
    ∃ i, bc.inputVector[i]? = some id ∧ searchPointer id bc bitname = .ok (.cipherin i)
  register : ∀ id ∈ gateIns cells, id ∈ (dffPairs cells).map Prod.fst → ∀ bitname,
    ∃ i, bc.dffQVector[i]? = some id ∧ searchPointer id bc bitname = .ok (.cipherdffq i)
  /-- A gate's net is read from the slot its driving gate writes. -/
  gate : ∀ id ∈ gateIns cells, id ∈ gateOuts cells → ∀ bitname,
    ∃ slot, searchPointer id bc "output" = .ok slot ∧ searchPointer id bc bitname = .ok slot ∧
      ((∃ i, slot = .cipherwire i) ∨ ∃ i, slot = .cipherout i)
  distinct : ∀ id ∈ gateIns cells ++ gateOuts cells, ∀ id' ∈ gateIns cells ++ gateOuts cells,
    ∀ bitname bitname' slot, searchPointer id bc bitname = .ok slot →
      searchPointer id' bc bitname' = .ok slot → id = id'

theorem SlotsResolved.of_no_dff {bc : ParsedBC} {ports : List PortRead} {cells : List CellRead}
    (hp : Parsed bc ports cells) (hdff : dffPairs cells = [])
    (honce : (inputBits ports ++ (dffPairs cells).map Prod.fst ++ gateOuts cells).Nodup)
    (hdriven : ∀ id ∈ gateIns cells,
      id ∈ inputBits ports ++ (dffPairs cells).map Prod.fst ++ gateOuts cells) :
    SlotsResolved bc ports cells := by
  have hq : bc.dffQVector = [] := by rw [hp.dffQ, hdff, List.map_nil]
  have hd : bc.dffDVector = [] := by rw [hp.dffD, hdff, List.map_nil]
  rw [hdff, List.map_nil, List.append_nil] at honce hdriven
  have hout : ∀ id ∈ gateOuts cells, id ∉ bc.inputVector := by
    intro id hid hin
    rw [hp.input, mem_sort] at hin
    exact (List.nodup_append.mp honce).2.2 id hin id hid rfl
  have hmem : ∀ id ∈ gateIns cells ++ gateOuts cells,
      id ∈ bc.inputVector ∨ id ∈ bc.wireVector ∨ id ∈ bc.outputVector := by
    have hgate : ∀ id ∈ gateOuts cells, id ∈ bc.wireVector ∨ id ∈ bc.outputVector := hp.outsKept
    intro id hid
    rcases List.mem_append.mp hid with hid | hid
    · rcases List.mem_append.mp (hdriven id hid) with hid | hid
      · exact Or.inl (by rwa [hp.input, mem_sort])
      · exact Or.inr (hgate id hid)
    · exact Or.inr (hgate id hid)
  refine ⟨?_, ?_, ?_, ?_, ?_⟩
  · intro id hid bitname
    obtain ⟨slot, hslot⟩ := searchPointer_total hq hd (hmem id hid)
    exact ⟨slot, hslot bitname, searchPointer_net (hslot bitname)⟩
  · intro id _ hin bitname
    have hinput : id ∈ bc.inputVector := by rwa [hp.input, mem_sort]
    obtain ⟨i, hi, hslot⟩ := searchPointer_input hq hd hinput
    exact ⟨i, hi, hslot bitname⟩
  · intro id _ hreg
    rw [hdff] at hreg
    exact absurd hreg (List.not_mem_nil)
  · intro id _ hid bitname
    by_cases hwire : id ∈ bc.wireVector
    · obtain ⟨i, -, hslot⟩ := searchPointer_wire hq hd (hout id hid) hwire
      exact ⟨_, hslot _, hslot _, Or.inl ⟨i, rfl⟩⟩
    · obtain ⟨i, -, hslot⟩ := searchPointer_output hq hd (hout id hid) hwire
        ((hp.outsKept id hid).resolve_left hwire)
      exact ⟨_, hslot _, hslot _, Or.inr ⟨i, rfl⟩⟩
  · intro id _ id' _ bitname bitname' slot h h'
    exact searchPointer_inj h h'

/-- **The lookups of a netlist serve the task graph if and only if it has no flip-flop
or no gate.** -/
theorem slotsResolved_iff {useM12 : Bool} {doc module : Json} {bc : ParsedBC}
    {ports : List PortRead} {cells : List CellRead} (hone : SingleModule doc module)
    (hparse : parsedBC useM12 doc = .ok bc) (hread : moduleRead useM12 module = .ok (ports, cells))
    (honce : (inputBits ports ++ (dffPairs cells).map Prod.fst ++ gateOuts cells).Nodup)
    (hdriven : ∀ id ∈ gateIns cells,
      id ∈ inputBits ports ++ (dffPairs cells).map Prod.fst ++ gateOuts cells) :
    SlotsResolved bc ports cells ↔ dffPairs cells = [] ∨ gateReads cells = [] := by
  have hp := parsed_single hone hparse hread
  constructor
  · intro h
    by_contra hnot
    obtain ⟨hdff, hgates⟩ := not_or.mp hnot
    obtain ⟨read, hmem⟩ := List.exists_mem_of_ne_nil _ hgates
    have hout : read.gate.out0 ∈ gateIns cells ++ gateOuts cells :=
      List.mem_append_right _ (List.mem_flatMap.mpr ⟨read, hmem, moduleRead_out0 hread hmem⟩)
    obtain ⟨slot, hslot, -⟩ := h.found _ hout "output"
    have hq := searchPointer_dff hslot
    rw [hp.dffQ, List.map_eq_nil_iff] at hq
    exact hdff hq
  · rintro (hdff | hgates)
    · exact SlotsResolved.of_no_dff hp hdff honce hdriven
    · have hins : gateIns cells = [] := by rw [gateIns, hgates, List.flatMap_nil]
      have houts : gateOuts cells = [] := by rw [gateOuts, hgates, List.flatMap_nil]
      constructor <;> simp [hins, houts]

/-- A NAND whose result an inverter and a multiplexer read: a wire and two outputs. -/
def sharedNand : Netlist where
  ports := [("a", ⟨.input, [2]⟩), ("b", ⟨.input, [3]⟩), ("s", ⟨.input, [4]⟩),
    ("y", ⟨.output, [6]⟩), ("z", ⟨.output, [7]⟩)]
  cells := [("nand", .gate ⟨.NAND, fun | .A => 2 | _ => 3, 5⟩),
    ("not", .gate ⟨.NOT, fun _ => 5, 6⟩),
    ("select", .gate ⟨.MUX, fun | .A => 2 | .B => 5 | .S => 4, 7⟩)]

theorem sharedNand_represents :
    Represents sharedNand.toJson sharedNand.moduleJson sharedNand :=
  represents_toJson (by simp [Netlist.Fits, sharedNand, GateType.pins])

theorem sharedNand_parsed (useM12 : Bool) : parsedBC useM12 sharedNand.toJson = .ok
    { inputVector := [2, 3, 4], outputVector := [6, 7], wireVector := [5],
      gateVector := [{ name := "NAND", in0 := 2, in1 := 3, out0 := 5 },
        { name := "NOT", in0 := 5, out0 := 6 },
        { name := "MUX", in0 := 2, in1 := 5, in2 := 4, out0 := 7 }],
      dependencyVector := [0, 0, 0, 0, 0, 1, 2, 3] } := by
  cases useM12 <;> rfl

theorem sharedNand_slotsResolved : ∃ bc, parsedBC false sharedNand.toJson = .ok bc ∧
    SlotsResolved bc sharedNand.portReads sharedNand.cellReads :=
  ⟨_, sharedNand_parsed false,
    (slotsResolved_iff sharedNand_represents.single (sharedNand_parsed false)
      (moduleRead_represents false sharedNand_represents) (by decide) (by decide)).mpr
      (Or.inl rfl)⟩

/-- An inverter whose result is also kept in a register. -/
def registeredInverter : Netlist where
  ports := [("a", ⟨.input, [2]⟩), ("y", ⟨.output, [3]⟩)]
  cells := [("inv", .gate ⟨.NOT, fun _ => 2, 3⟩), ("reg", .sdff 3 4)]

theorem registeredInverter_represents :
    Represents registeredInverter.toJson registeredInverter.moduleJson registeredInverter :=
  represents_toJson (by simp [Netlist.Fits, registeredInverter])

theorem registeredInverter_parsed : parsedBC false registeredInverter.toJson = .ok
    { inputVector := [2], outputVector := [3], dffQVector := [4], dffDVector := [3],
      gateVector := [{ name := "NOT", in0 := 2, out0 := 3 }],
      dependencyVector := [0, 0, 0, 1] } := by
  rfl

/-- With a flip-flop beside a gate not even the input of the gate has a slot. -/
theorem registeredInverter_unresolved :
    ¬ ∀ (useM12 : Bool) (doc module : Json) (bc : ParsedBC) (ports : List PortRead)
      (cells : List CellRead), SingleModule doc module → parsedBC useM12 doc = .ok bc →
      moduleRead useM12 module = .ok (ports, cells) →
      (inputBits ports ++ (dffPairs cells).map Prod.fst ++ gateOuts cells).Nodup →
      (∀ id ∈ gateIns cells,
        id ∈ inputBits ports ++ (dffPairs cells).map Prod.fst ++ gateOuts cells) →
      SlotsResolved bc ports cells := by
  intro h
  have hrep := registeredInverter_represents
  have hres := h false _ _ _ _ _ hrep.single registeredInverter_parsed
    (moduleRead_represents false hrep) (by decide) (by decide)
  obtain ⟨slot, hslot, -⟩ := hres.found 2 (by decide) "in0"
  exact absurd (searchPointer_dff hslot) (by decide)

end Tangor
