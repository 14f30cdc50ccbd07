/-
Reading the document of a netlist.

The parser meets the ports and the cells of a netlist in the order of their names,
which is what `objectMap` makes of the order they are declared in: the same members,
strictly sorted by name (`objectMap_perm`, `objectMap_sorted`).  Apart from that it
reads each of them as what it is (`portRead_eq`, `cellRead_eq`), so the parse of a
document is known from the netlist the document represents (`parsed_represents`).
-/
import Tangor.Proofs.Parser

namespace Tangor

open YosysJSONparser Fallible

/-! ### Members sorted by key -/

section ObjectMap

variable {α β : Type*}

theorem mem_insertMember {key : String} {value : α} {l : List (String × α)} {kv : String × α}
    (h : kv ∈ insertMember key value l) : kv = (key, value) ∨ kv ∈ l := by
  induction l with
  | nil => simpa [insertMember] using h
  | cons x rest ih =>
      obtain ⟨k, v⟩ := x
      rw [insertMember] at h
      split at h
      · exact List.mem_cons.mp h
      · split at h
        · rcases List.mem_cons.mp h with rfl | h
          · exact Or.inl rfl
          · exact Or.inr (List.mem_cons_of_mem _ h)
        · rcases List.mem_cons.mp h with rfl | h
          · exact Or.inr List.mem_cons_self
          · exact (ih h).imp_right (List.mem_cons_of_mem _)

theorem insertMember_sorted {key : String} {value : α} {l : List (String × α)}
    (hl : l.Pairwise fun a b => a.1 < b.1) :
    (insertMember key value l).Pairwise fun a b => a.1 < b.1 := by
  induction l with
  | nil => simp [insertMember]
  | cons x rest ih =>
      obtain ⟨k, v⟩ := x
      obtain ⟨hhead, hrest⟩ := List.pairwise_cons.mp hl
      rw [insertMember]
      split
      · rename_i hlt
        refine List.pairwise_cons.mpr ⟨?_, hl⟩
        intro b hb
        rcases List.mem_cons.mp hb with rfl | hb
        · exact hlt
        · exact hlt.trans (hhead b hb)
      · rename_i hnlt
        split
        · rename_i heq
          subst heq
          exact List.pairwise_cons.mpr ⟨hhead, hrest⟩
        · rename_i hne
          refine List.pairwise_cons.mpr ⟨?_, ih hrest⟩
          intro b hb
          rcases mem_insertMember hb with rfl | hb
          · exact lt_of_le_of_ne (not_lt.mp hnlt) (Ne.symm hne)
          · exact hhead b hb

/-- A new key adds its member and keeps the others. -/
theorem insertMember_perm {key : String} {value : α} {l : List (String × α)}
    (hkey : key ∉ l.map Prod.fst) : (insertMember key value l).Perm ((key, value) :: l) := by
  induction l with
  | nil => exact List.Perm.refl _
  | cons x rest ih =>
      obtain ⟨k, v⟩ := x
      simp only [List.map_cons, List.mem_cons, not_or] at hkey
      rw [insertMember]
      split
      · exact List.Perm.refl _
      · rw [if_neg hkey.1]
        exact ((ih hkey.2).cons (k, v)).trans (List.Perm.swap _ _ _)

theorem objectMap_concat (l : List (String × α)) (kv : String × α) :
    objectMap (l ++ [kv]) = insertMember kv.1 kv.2 (objectMap l) := by
  simp [objectMap, List.foldl_append]

/-- Members are stored in strict order of their keys. -/
theorem objectMap_sorted (l : List (String × α)) :
    (objectMap l).Pairwise fun a b => a.1 < b.1 := by
  induction l using List.reverseRecOn with
  | nil => exact List.Pairwise.nil
  | append_singleton l kv ih =>
      rw [objectMap_concat]
      exact insertMember_sorted ih

/-- With distinct keys no member is lost. -/
theorem objectMap_perm {l : List (String × α)} (hl : (l.map Prod.fst).Nodup) :
    (objectMap l).Perm l := by
  induction l using List.reverseRecOn with
  | nil => exact List.Perm.refl _
  | append_singleton l kv ih =>
      rw [List.map_append, List.nodup_append] at hl
      obtain ⟨hnd, -, hdisj⟩ := hl
      have hperm := ih hnd
      rw [objectMap_concat]
      have hkey : kv.1 ∉ (objectMap l).map Prod.fst := by
        intro hmem
        exact hdisj _ ((hperm.map Prod.fst).mem_iff.mp hmem) kv.1 (by simp) rfl
      exact (insertMember_perm hkey).trans ((hperm.cons kv).trans
        (List.perm_append_singleton kv l).symm)

/-- With distinct keys a lookup finds every member. -/
theorem lookup_objectMap {l : List (String × α)} (hl : (l.map Prod.fst).Nodup) {key : String}
    {value : α} (hmem : (key, value) ∈ l) : (objectMap l).lookup key = some value := by
  have hmem' := (objectMap_perm hl).mem_iff.mpr hmem
  obtain ⟨pre, post, hsplit⟩ := List.append_of_mem hmem'
  refine List.lookup_eq_some_iff.mpr ⟨pre, post, hsplit, ?_⟩
  intro kv hkv
  have hsorted := objectMap_sorted l
  rw [hsplit] at hsorted
  have hlt : kv.1 < key := (List.pairwise_append.mp hsorted).2.2 kv hkv (key, value) (by simp)
  simpa using hlt.ne'

/-- Two lists of members with the same keys are stored in the same order. -/
theorem objectMap_forall₂ {R : α → β → Prop} {l : List (String × α)} {m : List (String × β)}
    (h : List.Forall₂ (fun a b => a.1 = b.1 ∧ R a.2 b.2) l m) :
    List.Forall₂ (fun a b => a.1 = b.1 ∧ R a.2 b.2) (objectMap l) (objectMap m) := by
  have hinsert : ∀ {key : String} {v : α} {w : β}, R v w → ∀ {l : List (String × α)}
      {m : List (String × β)}, List.Forall₂ (fun a b => a.1 = b.1 ∧ R a.2 b.2) l m →
      List.Forall₂ (fun a b => a.1 = b.1 ∧ R a.2 b.2) (insertMember key v l)
        (insertMember key w m) := by
    intro key v w hvw l m hlm
    induction hlm with
    | nil => exact List.Forall₂.cons ⟨rfl, hvw⟩ List.Forall₂.nil
    | @cons a b l m hab hrest ih =>
        obtain ⟨k, v'⟩ := a
        obtain ⟨k', w'⟩ := b
        obtain ⟨rfl, hR⟩ : k = k' ∧ R v' w' := hab
        simp only [insertMember]
        split
        · exact .cons ⟨rfl, hvw⟩ (.cons ⟨rfl, hR⟩ hrest)
        · split
          · exact .cons ⟨rfl, hvw⟩ hrest
          · exact .cons ⟨rfl, hR⟩ ih
  have hfold : ∀ {l : List (String × α)} {m : List (String × β)},
      List.Forall₂ (fun a b => a.1 = b.1 ∧ R a.2 b.2) l m →
      ∀ {s : List (String × α)} {t : List (String × β)},
        List.Forall₂ (fun a b => a.1 = b.1 ∧ R a.2 b.2) s t →
        List.Forall₂ (fun a b => a.1 = b.1 ∧ R a.2 b.2)
          (l.foldl (fun map kv => insertMember kv.1 kv.2 map) s)
          (m.foldl (fun map kv => insertMember kv.1 kv.2 map) t) := by
    intro l m hlm
    induction hlm with
    | nil => exact fun hst => hst
    | @cons a b l m hab hrest ih =>
        intro s t hst
        obtain ⟨k, v⟩ := a
        obtain ⟨k', w⟩ := b
        obtain ⟨rfl, hR⟩ : k = k' ∧ R v w := hab
        exact ih (hinsert hR hst)
  exact hfold h List.Forall₂.nil

end ObjectMap

/-! ### What is read off a port and off a cell -/

def Port.read (p : Port) : PortRead :=
  match p.direction with
  | .input => .input p.bits
  | .output => .output p.bits

/-- The gate name the parser gives the type. -/
def GateType.gateName : GateType → String
  | .NOT => "NOT"
  | .NAND => "NAND"
  | .NOR => "NOR"
  | .XNOR => "XNOR"
  | .AND => "AND"
  | .OR => "OR"
  | .XOR => "XOR"
  | .ANDNOT => "ANDYN"
  | .ORNOT => "ORYN"
  | .MUX => "MUX"
  | .NMUX => "NMUX"

/-- The entry of the gate vector for a gate. -/
def Gate.struct (g : Gate) : GateStruct where
  name := g.type.gateName
  in0 := g.conn .A
  in1 := if Pin.B ∈ g.type.pins then g.conn .B else 0
  in2 := if Pin.S ∈ g.type.pins then g.conn .S else 0
  out0 := g.y

def Gate.read (g : Gate) : GateRead := ⟨g.struct, g.operands, [g.y]⟩

def Cell.read : Cell → CellRead
  | .gate g => .gate g.read
  | .sdff d q => .dff q d

theorem gateNameOf_typeName (t : GateType) : gateNameOf t.typeName = .ok t.gateName := by
  cases t <;> decide

theorem portRead_eq {p : Port} {j : Json} (h : PortJson p j) : portRead j = .ok p.read := by
  obtain ⟨bits, ids, hbits, hvec, hids⟩ := h.bits
  simp only [portRead, h.direction, ok_bind, Json.getString, hbits, hvec]
  unfold Port.read
  cases hd : p.direction with
  | input =>
      rw [if_pos (by decide), ← hids]
      rfl
  | output =>
      rw [if_neg (by decide), if_pos (by decide), ← hids]
      rfl

theorem cellRead_eq (useM12 : Bool) {c : Cell} {j : Json} (h : CellJson c j) :
    cellRead useM12 j = .ok c.read := by
  cases c with
  | gate g =>
      obtain ⟨t, conn, y⟩ := g
      obtain ⟨htype, hy, hpins⟩ := h
      simp only at htype hy hpins
      have hA : pin j "A" = .ok (conn .A) := hpins .A (by cases t <;> simp [GateType.pins])
      have hne : t.gateName ≠ "SDFF_PP0" := by cases t <;> decide
      simp only [cellRead, htype, ok_bind, Json.getString, gateNameOf_typeName, if_neg hne, hy, hA]
      cases t with
      | NOT => rfl
      | NAND | NOR | XNOR | AND | OR | XOR | ANDNOT | ORNOT =>
          have hB : pin j "B" = .ok (conn .B) := hpins .B (by simp [GateType.pins])
          simp only [operandsRead, hB, ok_bind]
          cases useM12 <;> rfl
      | MUX | NMUX =>
          have hB : pin j "B" = .ok (conn .B) := hpins .B (by simp [GateType.pins])
          have hS : pin j "S" = .ok (conn .S) := hpins .S (by simp [GateType.pins])
          simp only [operandsRead, hB, hS, ok_bind]
          rfl
  | sdff d q =>
      obtain ⟨htype, hd, hq⟩ := h
      have hname : gateNameOf "$_SDFF_PP0_" = .ok "SDFF_PP0" := by decide
      simp only [cellRead, htype, ok_bind, Json.getString, hname, if_true, hq, hd]
      rfl

/-! ### What is read off the document -/

namespace Netlist

/-- The ports in the order the parser meets them. -/
def portReads (n : Netlist) : List PortRead := (objectMap n.ports).map fun np => np.2.read

/-- The cells in the order the parser meets them. -/
def cellReads (n : Netlist) : List CellRead := (objectMap n.cells).map fun nc => nc.2.read

/-- The gates in the order of the gate vector. -/
def gatesInOrder (n : Netlist) : List Gate := (objectMap n.cells).filterMap fun nc => nc.2.gate?

theorem inputBits_portReads (n : Netlist) :
    YosysJSONparser.inputBits n.portReads
      = (objectMap n.ports).flatMap fun np => np.2.bitsOf .input := by
  unfold YosysJSONparser.inputBits portReads
  rw [List.flatMap_map]
  refine List.flatMap_congr fun np _ => ?_
  unfold Port.read Port.bitsOf
  cases np.2.direction <;> simp

theorem outputBits_portReads (n : Netlist) :
    YosysJSONparser.outputBits n.portReads
      = (objectMap n.ports).flatMap fun np => np.2.bitsOf .output := by
  unfold YosysJSONparser.outputBits portReads
  rw [List.flatMap_map]
  refine List.flatMap_congr fun np _ => ?_
  unfold Port.read Port.bitsOf
  cases np.2.direction <;> simp

theorem inputBits_perm (n : Netlist) :
    (YosysJSONparser.inputBits n.portReads).Perm n.inputBits := by
  rw [inputBits_portReads]
  exact (objectMap_perm n.portNames).flatMap_right _

theorem outputBits_perm (n : Netlist) :
    (YosysJSONparser.outputBits n.portReads).Perm n.outputBits := by
  rw [outputBits_portReads]
  exact (objectMap_perm n.portNames).flatMap_right _

theorem dffPairs_fst (n : Netlist) : (dffPairs n.cellReads).map Prod.fst
    = (objectMap n.cells).filterMap fun nc => nc.2.register? := by
  unfold dffPairs cellReads
  rw [List.filterMap_map, List.map_filterMap]
  refine List.filterMap_congr fun nc _ => ?_
  cases hc : nc.2 <;> simp [Cell.read, Cell.register?, hc]

theorem dffQ_perm (n : Netlist) :
    ((dffPairs n.cellReads).map Prod.fst).Perm n.registerBits := by
  rw [dffPairs_fst]
  exact (objectMap_perm n.cellNames).filterMap _

theorem gateReads_cellReads (n : Netlist) :
    gateReads n.cellReads = n.gatesInOrder.map Gate.read := by
  unfold gateReads cellReads gatesInOrder
  rw [List.filterMap_map, List.map_filterMap]
  refine List.filterMap_congr fun nc _ => ?_
  cases hc : nc.2 <;> simp [Cell.read, Cell.gate?, CellRead.gate?, hc]

theorem gatesInOrder_perm (n : Netlist) : n.gatesInOrder.Perm n.gates :=
  (objectMap_perm n.cellNames).filterMap _

theorem gateOuts_cellReads (n : Netlist) : gateOuts n.cellReads = n.gatesInOrder.map Gate.y := by
  rw [gateOuts, gateReads_cellReads, List.flatMap_map]
  exact List.flatMap_pure_eq_map Gate.y n.gatesInOrder

theorem gateOuts_perm (n : Netlist) : (gateOuts n.cellReads).Perm n.gateBits := by
  rw [gateOuts_cellReads]
  exact n.gatesInOrder_perm.map _

end Netlist

theorem moduleRead_represents (useM12 : Bool) {doc module : Json} {n : Netlist}
    (h : Represents doc module n) : moduleRead useM12 module = .ok (n.portReads, n.cellReads) := by
  obtain ⟨ps, hps, hports⟩ := h.ports
  obtain ⟨cs, hcs, hcells⟩ := h.cells
  have hportLoop : (Json.items (.obj ps)).mapM portRead = .ok n.portReads := by
    rw [mapM_eq_ok, Json.items, Netlist.portReads, List.forall₂_map_left_iff,
      List.forall₂_map_right_iff]
    exact (objectMap_forall₂ (R := fun j p => PortJson p j) hports).imp
      fun _ _ hkv => portRead_eq hkv.2
  have hcellLoop : (Json.items (.obj cs)).mapM (cellRead useM12) = .ok n.cellReads := by
    rw [mapM_eq_ok, Json.items, Netlist.cellReads, List.forall₂_map_left_iff,
      List.forall₂_map_right_iff]
    exact (objectMap_forall₂ (R := fun j c => CellJson c j) hcells).imp
      fun _ _ hkv => cellRead_eq useM12 hkv.2
  simp only [moduleRead, hps, hcs, ok_bind, hportLoop, hcellLoop]
  rfl

/-- **The parse of a document is known from the netlist it represents.** -/
theorem parsed_represents {useM12 : Bool} {doc module : Json} {n : Netlist} {bc : ParsedBC}
    (h : Represents doc module n) (hparse : parsedBC useM12 doc = .ok bc) :
    Parsed bc n.portReads n.cellReads :=
  parsed_single h.single hparse (moduleRead_represents useM12 h)

/-! ### The document of a netlist represents it -/

theorem Json.at_obj {members : List (String × Json)} (hnd : (members.map Prod.fst).Nodup)
    {key : String} {value : Json} (hmem : (key, value) ∈ members) :
    (Json.obj members).at key = .ok value := by
  simp only [Json.at, lookup_objectMap hnd hmem]

theorem toUint_natCast {k : Nat} (h : k < 2 ^ 32) : Json.toUint k = k := by
  simp only [Json.toUint]
  omega

theorem getUint_natCast {k : Nat} (h : k < 2 ^ 32) : Json.getUint (.int k) = .ok k := by
  rw [Json.getUint, if_pos (by omega), toUint_natCast h]

theorem portJson_toJson {p : Port} (h : ∀ b ∈ p.bits, b < 2 ^ 32) : PortJson p p.toJson := by
  have hget : ∀ b ∈ p.bits, Json.getInt (.int b) = .ok ((b : Int).bmod (2 ^ 32)) := by
    intro b hb
    have hlt := h b hb
    rw [Json.getInt, if_pos (by omega)]
  have hback : ∀ b ∈ p.bits, Json.toUint ((b : Int).bmod (2 ^ 32)) = b := by
    intro b hb
    have hmod : (b : Int).bmod (2 ^ 32) % ((2 ^ 32 : Nat) : Int) = b % ((2 ^ 32 : Nat) : Int) :=
      Int.bmod_emod
    exact (congrArg Int.toNat hmod).trans (toUint_natCast (h b hb))
  refine ⟨Json.at_obj (by simp) (by simp), .arr (p.bits.map fun b : Nat => .int b),
    p.bits.map fun b : Nat => (b : Int).bmod (2 ^ 32), Json.at_obj (by simp) (by simp), ?_, ?_⟩
  · rw [Json.getIntVector, mapM_eq_ok, List.forall₂_map_left_iff, List.forall₂_map_right_iff,
      List.forall₂_same]
    exact hget
  · rw [List.map_map]
    refine (List.map_congr_left fun b hb => ?_).trans (List.map_id p.bits)
    rw [Function.comp_apply, hback b hb, id]

/-- Reading a pin that is connected to one net. -/
theorem pin_connJson {cell : Json} {members : List (String × Json)} {name : String} {net : Nat}
    (hconn : cell.at "connections" = .ok (.obj members)) (hnd : (members.map Prod.fst).Nodup)
    (hmem : (name, connJson net) ∈ members) (hnet : net < 2 ^ 32) : pin cell name = .ok net := by
  have hfirst : (connJson net).index 0 = .ok (.int net) := rfl
  rw [pin, hconn, ok_bind, Json.at_obj hnd hmem, ok_bind, hfirst, ok_bind, getUint_natCast hnet]

/-- The connections of a gate's own document. -/
def Gate.connections (g : Gate) : List (String × Json) :=
  g.type.pins.map (fun p => (p.name, connJson (g.conn p))) ++ [("Y", connJson g.y)]

theorem Gate.connections_nodup (g : Gate) : (g.connections.map Prod.fst).Nodup := by
  unfold Gate.connections
  cases g.type <;> simp [GateType.pins, Pin.name]

theorem Gate.at_connections (g : Gate) :
    (Cell.toJson (.gate g)).at "connections" = .ok (.obj g.connections) :=
  Json.at_obj (by simp) (by simp [Gate.connections])

theorem Gate.y_mem_connections (g : Gate) : ("Y", connJson g.y) ∈ g.connections :=
  List.mem_append_right _ (List.mem_singleton_self _)

theorem Gate.pin_mem_connections (g : Gate) {p : Pin} (hp : p ∈ g.type.pins) :
    (p.name, connJson (g.conn p)) ∈ g.connections :=
  List.mem_append_left _ (List.mem_map.mpr ⟨p, hp, rfl⟩)

theorem cellJson_gate {g : Gate} (hy : g.y < 2 ^ 32)
    (hconn : ∀ p ∈ g.type.pins, g.conn p < 2 ^ 32) : CellJson (.gate g) (Cell.toJson (.gate g)) :=
  ⟨Json.at_obj (by simp) (by simp),
    pin_connJson g.at_connections g.connections_nodup g.y_mem_connections hy,
    fun p hp => pin_connJson g.at_connections g.connections_nodup (g.pin_mem_connections hp)
      (hconn p hp)⟩

theorem cellJson_sdff {d q : Nat} (hd : d < 2 ^ 32) (hq : q < 2 ^ 32) :
    CellJson (.sdff d q) (Cell.toJson (.sdff d q)) := by
  have hconns : (Cell.toJson (.sdff d q)).at "connections"
      = .ok (.obj [("D", connJson d), ("Q", connJson q)]) := Json.at_obj (by simp) (by simp)
  exact ⟨Json.at_obj (by simp) (by simp), pin_connJson hconns (by simp) (by simp) hd,
    pin_connJson hconns (by simp) (by simp) hq⟩

/-- **A netlist's own document represents it.** -/
theorem represents_toJson {n : Netlist} (h : n.Fits) :
    Represents n.toJson n.moduleJson n := by
  refine ⟨⟨.obj [("top", n.moduleJson)], Json.at_obj (by simp) (by simp), rfl⟩,
    ⟨_, Json.at_obj (by simp) (List.mem_cons_self ..), ?_⟩,
    ⟨_, Json.at_obj (by simp) (List.mem_cons_of_mem _ (List.mem_cons_self ..)), ?_⟩⟩
  · rw [List.forall₂_map_left_iff, List.forall₂_same]
    exact fun np hnp => ⟨rfl, portJson_toJson (h.1 np hnp)⟩
  · rw [List.forall₂_map_left_iff, List.forall₂_same]
    rintro ⟨name, c⟩ hnc
    have hfit := h.2 _ hnc
    cases c with
    | gate g => exact ⟨rfl, cellJson_gate hfit.1 hfit.2⟩
    | sdff d q => exact ⟨rfl, cellJson_sdff hfit.1 hfit.2⟩

end Tangor
