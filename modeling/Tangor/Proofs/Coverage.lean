/-
Which documents lose a gate on the way.

The parser takes any cell type it can cut a name out of, and the builder has a
codelet for eleven names and only prints a line, or does nothing, for the rest.
`HasTask` is what a cell needs: a task with the codelet of its type, on slots that
stand for all the nets of its pins.  `covers_iff` says for which accepted documents
every cell other than a flip-flop gets one.

The statement is about documents, not about netlists, so that nothing of a cell is
left out beforehand: not its type, and not the nets after the first on a pin.
-/
import Tangor.Proofs.Compile

namespace Tangor

open YosysJSONparser Fallible

/-! ### The cells of a document -/

def moduleCells (module : Json) : List Json :=
  match module.at "cells" with
  | .ok cells => cells.items
  | .error _ => []

/-- The cells of all modules, in the order the parser meets them. -/
def docCells (doc : Json) : List Json :=
  match doc.at "modules" with
  | .ok modules => modules.items.flatMap moduleCells
  | .error _ => []

def cellType (cell : Json) : Result String := do (← cell.at "type").getString

/-- All the nets a connection of a cell names; a constant bit is a string and no net. -/
def pinNets (cell : Json) (name : String) : List Nat :=
  match (do (← cell.at "connections").at name : Result Json) with
  | .ok (.arr bits) => bits.filterMap fun bit => bit.getUint.toOption
  | _ => []

/-- One of the tasks has the codelet of the cell's type, reads slots of all the nets on
the input pins and writes a slot of all the nets on the output pin. -/
def HasTask (bc : ParsedBC) (tasks : List TaskInsert) (cell : Json) : Prop :=
  ∃ t : GateType, cellType cell = .ok t.typeName ∧ ∃ task ∈ tasks, task.codelet = t.codelet ∧
    (∀ net ∈ pinNets cell "Y", task.target.net bc = some net) ∧
    List.Forall₂ (fun p s => ∀ net ∈ pinNets cell p.name, s.net bc = some net) t.order task.sources

/-- The build stops with an error, or every cell that is no flip-flop has a task. -/
def Covers (useM12 : Bool) (doc : Json) (bc : ParsedBC) : Prop :=
  (∃ what, starpuBuildGraph useM12 bc = .error (.thrown what)) ∨
    ∃ submissions, starpuBuildGraph useM12 bc = .ok submissions ∧
      ∀ cell ∈ docCells doc, cellType cell ≠ .ok "$_SDFF_PP0_" →
        HasTask bc (insertedTasks submissions) cell

/-- What a document has to be like: only supported types, one net a pin, operands that
are port bits or driven by a gate, and no flip-flop beside a gate. -/
structure Covered (doc : Json) (ports : List PortRead) (cells : List CellRead) : Prop where
  supported : ∀ cell ∈ docCells doc, cellType cell ≠ .ok "$_SDFF_PP0_" →
    ∃ t : GateType, cellType cell = .ok t.typeName
  oneNet : ∀ cell ∈ docCells doc, ∀ t : GateType, cellType cell = .ok t.typeName →
    ∀ name ∈ "Y" :: t.pins.map Pin.name, ∀ net ∈ pinNets cell name, pin cell name = .ok net
  driven : ∀ id ∈ gateIns cells, id ∈ inputBits ports ∨ id ∈ outputBits ports ∨ id ∈ gateOuts cells
  noFlipFlop : dffPairs cells = [] ∨ gateReads cells = []

/-! ### Reading a supported cell -/

theorem GateType.typeName_inj {t u : GateType} (h : t.typeName = u.typeName) : t = u := by
  cases t <;> cases u <;> first | rfl | exact absurd h (by decide)

theorem getString_eq_ok {j : Json} {s : String} (h : j.getString = .ok s) : j = .str s := by
  cases j with
  | str s' => exact congrArg Json.str (Except.ok.inj h)
  | _ => exact absurd h (by simp [Json.getString])

theorem cellType_eq_ok {cell : Json} {type : String} :
    cellType cell = .ok type ↔ cell.at "type" = .ok (.str type) := by
  rw [cellType, bind_eq_ok]
  constructor
  · rintro ⟨j, hj, hs⟩
    rw [hj, getString_eq_ok hs]
  · exact fun h => ⟨_, h, rfl⟩

/-- The first net of a pin is one of its nets. -/
theorem mem_pinNets {cell : Json} {name : String} {net : Nat} (h : pin cell name = .ok net) :
    net ∈ pinNets cell name := by
  simp only [pin, bind_eq_ok] at h
  obtain ⟨conns, hconns, bits, hbits, bit, hbit, hnet⟩ := h
  rw [pinNets, hconns, ok_bind, hbits]
  cases bits with
  | arr xs =>
      refine List.mem_filterMap.mpr ⟨bit, ?_, by rw [hnet]; rfl⟩
      simp only [Json.index] at hbit
      split at hbit
      · rename_i v hv
        exact Except.ok.inj hbit ▸ List.mem_of_getElem? hv
      · exact absurd hbit (by simp)
  | _ => exact absurd hbit (by simp [Json.index])

/-- The nets of a pin that is connected to one net. -/
theorem pinNets_connJson {cell : Json} {members : List (String × Json)} {name : String}
    {net : Nat} (hconn : cell.at "connections" = .ok (.obj members))
    (hnd : (members.map Prod.fst).Nodup) (hmem : (name, connJson net) ∈ members)
    (hnet : net < 2 ^ 32) : pinNets cell name = [net] := by
  have hget : (Json.int net).getUint.toOption = some net := by
    rw [getUint_natCast hnet]
    rfl
  have hnets : [Json.int net].filterMap (fun bit => bit.getUint.toOption) = [net] := by
    rw [List.filterMap_cons_some (f := fun bit : Json => bit.getUint.toOption) hget,
      List.filterMap_nil]
  rw [pinNets, hconn, ok_bind, Json.at_obj hnd hmem, connJson]
  exact hnets

/-- Each pin of a gate's own document names one net. -/
theorem Gate.oneNet (g : Gate) (hy : g.y < 2 ^ 32)
    (hconn : ∀ p ∈ g.type.pins, g.conn p < 2 ^ 32) :
    ∀ name ∈ "Y" :: g.type.pins.map Pin.name, ∀ net ∈ pinNets (Cell.gate g).toJson name,
      pin (Cell.gate g).toJson name = .ok net := by
  have hone : ∀ {name net}, (name, connJson net) ∈ g.connections → net < 2 ^ 32 →
      ∀ id ∈ pinNets (Cell.gate g).toJson name, pin (Cell.gate g).toJson name = .ok id := by
    intro name net hmem hlt id hid
    rw [pinNets_connJson g.at_connections g.connections_nodup hmem hlt] at hid
    rw [List.mem_singleton.mp hid]
    exact pin_connJson g.at_connections g.connections_nodup hmem hlt
  intro name hname
  rcases List.mem_cons.mp hname with rfl | hname
  · exact hone g.y_mem_connections hy
  · obtain ⟨p, hp, rfl⟩ := List.mem_map.mp hname
    exact hone (g.pin_mem_connections hp) (hconn p hp)

/-- An accepted cell of a supported type is read as a gate of that type. -/
theorem cellJson_of_read {useM12 : Bool} {cell : Json} {read : CellRead} {t : GateType}
    (hread : cellRead useM12 cell = .ok read) (htype : cellType cell = .ok t.typeName) :
    ∃ g : Gate, g.type = t ∧ CellJson (.gate g) cell ∧ read = .gate g.read := by
  rw [cellType_eq_ok] at htype
  have hpins : (∃ y, pin cell "Y" = .ok y) ∧ ∀ p ∈ t.pins, ∃ net, pin cell p.name = .ok net := by
    have hne : t.gateName ≠ "SDFF_PP0" := by cases t <;> decide
    simp only [cellRead, htype, ok_bind, Json.getString, gateNameOf_typeName, if_neg hne,
      bind_eq_ok] at hread
    obtain ⟨y, hy, a, ha, read', hops, -⟩ := hread
    refine ⟨⟨y, hy⟩, ?_⟩
    cases t with
    | NOT =>
        intro p hp
        obtain rfl := List.mem_singleton.mp hp
        exact ⟨a, ha⟩
    | MUX | NMUX =>
        simp only [operandsRead, GateType.gateName, String.reduceEq, if_false, or_true, true_or,
          if_true, bind_eq_ok] at hops
        obtain ⟨b, hb, s, hs, -⟩ := hops
        intro p _
        cases p with
        | A => exact ⟨a, ha⟩
        | B => exact ⟨b, hb⟩
        | S => exact ⟨s, hs⟩
    | _ =>
        simp only [operandsRead, GateType.gateName, String.reduceEq, if_false, bind_eq_ok] at hops
        obtain ⟨b, hb, -⟩ := hops
        intro p hp
        cases p with
        | A => exact ⟨a, ha⟩
        | B => exact ⟨b, hb⟩
        | S => exact absurd hp (by decide)
  obtain ⟨⟨y, hy⟩, hconn⟩ := hpins
  choose conn hconn using fun p : {p : Pin // p ∈ t.pins} => hconn p p.2
  set g : Gate := ⟨t, fun p => if hp : p ∈ t.pins then conn ⟨p, hp⟩ else 0, y⟩ with hg
  have hcell : CellJson (.gate g) cell := by
    refine ⟨htype, hy, fun p hp => ?_⟩
    rw [hg, show (Gate.mk t _ y).conn p = conn ⟨p, hp⟩ from dif_pos hp]
    exact hconn ⟨p, hp⟩
  exact ⟨g, rfl, hcell, Except.ok.inj (hread.symm.trans (cellRead_eq useM12 hcell))⟩

/-! ### Reading a document cell by cell -/

/-- The cells read off a document are read off its cells. -/
theorem docRead_cells {useM12 : Bool} {doc : Json} {reads : List (List PortRead × List CellRead)}
    (h : docRead useM12 doc = .ok reads) :
    List.Forall₂ (fun cell read => cellRead useM12 cell = .ok read) (docCells doc)
      (reads.flatMap Prod.snd) := by
  simp only [docRead, bind_eq_ok] at h
  obtain ⟨modules, hmods, hloop⟩ := h
  rw [docCells, hmods]
  have hall := mapM_eq_ok.mp hloop
  show List.Forall₂ _ (modules.items.flatMap moduleCells) _
  clear hloop hmods
  generalize modules.items = ms at hall ⊢
  induction hall with
  | nil => exact List.Forall₂.nil
  | @cons module read ms reads hmod _ ih =>
      simp only [moduleRead, bind_eq_ok, pure_eq_ok] at hmod
      obtain ⟨_, _, _, _, cells, hcells, cs, hcs, rfl⟩ := hmod
      rw [List.flatMap_cons, List.flatMap_cons, moduleCells, hcells]
      exact List.rel_append (mapM_eq_ok.mp hcs) ih

/-- A flip-flop is not read as a gate. -/
theorem not_sdff_of_gate {useM12 : Bool} {cell : Json} {read : GateRead}
    (h : cellRead useM12 cell = .ok (.gate read)) : cellType cell ≠ .ok "$_SDFF_PP0_" := by
  intro htype
  rw [cellType_eq_ok] at htype
  have hname : gateNameOf "$_SDFF_PP0_" = .ok "SDFF_PP0" := by decide
  simp only [cellRead, htype, ok_bind, Json.getString, hname, if_true, bind_eq_ok,
    pure_eq_ok] at h
  obtain ⟨_, _, _, _, h⟩ := h
  exact absurd h (by simp)

theorem mem_gateReads {cells : List CellRead} {read : GateRead} :
    read ∈ gateReads cells ↔ CellRead.gate read ∈ cells := by
  rw [gateReads, List.mem_filterMap]
  constructor
  · rintro ⟨c, hc, hgate⟩
    cases c with
    | dff q d => exact absurd hgate (by simp [CellRead.gate?])
    | gate read' => exact Option.some.inj hgate ▸ hc
  · exact fun h => ⟨_, h, rfl⟩

/-! ### The builder stops nowhere -/

theorem searchPointer_not_thrown (id : Nat) (bc : ParsedBC) (bitname what : String) :
    searchPointer id bc bitname ≠ .error (.thrown what) := by
  intro h
  refine bind_ne_error (e := Fault.thrown what) ?_ (fun found => ?_) h
  · unfold findAcross
    split <;> simp
  · dsimp only
    split <;> simp

theorem submitGate_not_thrown (useM12 : Bool) (bc : ParsedBC) (gate : GateStruct)
    (what : String) : submitGate useM12 bc gate ≠ .error (.thrown what) := by
  have hpure : ∀ s : Submission, (pure s : Result Submission) ≠ .error (.thrown what) :=
    fun s => by simp [pure, Except.pure]
  have hlook : ∀ id name, searchPointer id bc name ≠ .error (.thrown what) :=
    fun id name => searchPointer_not_thrown id bc name what
  unfold submitGate
  split
  · exact bind_ne_error (hlook _ _) fun _ => bind_ne_error (hlook _ _) fun _ => hpure _
  · split
    · refine bind_ne_error (hlook _ _) fun _ => bind_ne_error (hlook _ _) fun _ =>
        bind_ne_error (hlook _ _) fun _ => ?_
      repeat' split
      all_goals exact hpure _
    · split
      · refine bind_ne_error (hlook _ _) fun _ => bind_ne_error (hlook _ _) fun _ =>
          bind_ne_error (hlook _ _) fun _ => bind_ne_error (hlook _ _) fun _ => ?_
        repeat' split
        all_goals exact hpure _
      · exact hpure _

/-- **The builder never throws.** -/
theorem starpuBuildGraph_not_thrown (useM12 : Bool) (bc : ParsedBC) (what : String) :
    starpuBuildGraph useM12 bc ≠ .error (.thrown what) :=
  mapM_ne_error fun gate _ => submitGate_not_thrown useM12 bc gate what

/-! ### The documents whose cells all get a task -/

section Document

variable {useM12 : Bool} {doc : Json} {bc : ParsedBC}
  {reads : List (List PortRead × List CellRead)}
  (hp : Parsed bc (reads.flatMap Prod.fst) (reads.flatMap Prod.snd))
include hp

/-- In a covered document with a gate the nets of every gate are found. -/
theorem Covered.lookup (h : Covered doc (reads.flatMap Prod.fst) (reads.flatMap Prod.snd))
    {g : Gate} (hg : g.read ∈ gateReads (reads.flatMap Prod.snd)) :
    ∀ id ∈ g.y :: g.operands, ∀ name, searchPointer id bc name = .ok (slotOf bc id) := by
  have hdff : dffPairs (reads.flatMap Prod.snd) = [] :=
    h.noFlipFlop.resolve_right (List.ne_nil_of_mem hg)
  have hq : bc.dffQVector = [] := by rw [hp.dffQ, hdff, List.map_nil]
  have hd : bc.dffDVector = [] := by rw [hp.dffD, hdff, List.map_nil]
  have hgate : ∀ id ∈ gateOuts (reads.flatMap Prod.snd), id ∈ bc.wireVector ∨ id ∈ bc.outputVector :=
    hp.outsKept
  have hmem : ∀ id ∈ g.y :: g.operands,
      id ∈ bc.inputVector ∨ id ∈ bc.wireVector ∨ id ∈ bc.outputVector := by
    intro id hid
    rcases List.mem_cons.mp hid with rfl | hid
    · exact Or.inr (hgate _ (List.mem_flatMap.mpr ⟨_, hg, List.mem_singleton_self _⟩))
    · rcases h.driven id (List.mem_flatMap.mpr ⟨_, hg, hid⟩) with hin | hout | hout
      · exact Or.inl (by rwa [hp.input, mem_sort])
      · exact Or.inr (Or.inr (by rwa [hp.output, mem_sort]))
      · exact Or.inr (hgate id hout)
  intro id hid name
  obtain ⟨slot, hslot⟩ := searchPointer_total hq hd (hmem id hid)
  rw [slotOf_eq hslot, hslot]

/-- Without flip-flops a slot stands for an input, an output or a net that a gate drives. -/
theorem driven_of_slot (hdff : dffPairs (reads.flatMap Prod.snd) = []) {slot : Slot} {id : Nat}
    (h : slot.net bc = some id) : id ∈ inputBits (reads.flatMap Prod.fst) ∨
      id ∈ outputBits (reads.flatMap Prod.fst) ∨ id ∈ gateOuts (reads.flatMap Prod.snd) := by
  cases slot with
  | cipherin i =>
      have hmem := List.mem_of_getElem? h
      rw [hp.input, mem_sort] at hmem
      exact Or.inl hmem
  | cipherout i =>
      have hmem := List.mem_of_getElem? h
      rw [hp.output, mem_sort] at hmem
      exact Or.inr (Or.inl hmem)
  | cipherwire i => exact Or.inr (Or.inr (hp.wiresDriven id (List.mem_of_getElem? h)))
  | cipherdffq i =>
      rw [Slot.net, hp.dffQ, hdff] at h
      exact absurd h (by simp)
  | cipherdffd i =>
      rw [Slot.net, hp.dffD, hdff] at h
      exact absurd h (by simp)

variable (hdoc : docRead useM12 doc = .ok reads)
include hdoc

/-- In a covered document every entry of the gate vector is submitted as a task. -/
theorem Covered.submit (h : Covered doc (reads.flatMap Prod.fst) (reads.flatMap Prod.snd))
    {cell : Json} {g : Gate} (hcell : cell ∈ docCells doc) (hjson : CellJson (.gate g) cell) :
    g.struct ∈ bc.gateVector ∧
      submitGate useM12 bc g.struct = .ok (.inserted (g.insert (slotOf bc))) := by
  obtain ⟨read, hread, hok⟩ := forall₂_mem_left (docRead_cells hdoc) hcell
  obtain rfl : read = .gate g.read :=
    Except.ok.inj (hok.symm.trans (cellRead_eq useM12 hjson))
  have hg := mem_gateReads.mpr hread
  refine ⟨?_, submitGate_struct (h.lookup hp hg)⟩
  rw [hp.gates]
  exact List.mem_map_of_mem hg

/-- A gate of a covered document is one of the supported types. -/
theorem Covered.gate (h : Covered doc (reads.flatMap Prod.fst) (reads.flatMap Prod.snd))
    {gate : GateStruct} (hgate : gate ∈ bc.gateVector) :
    ∃ cell ∈ docCells doc, ∃ g : Gate, CellJson (.gate g) cell ∧ gate = g.struct := by
  rw [hp.gates] at hgate
  obtain ⟨read, hread, rfl⟩ := List.mem_map.mp hgate
  obtain ⟨cell, hcell, hok⟩ := forall₂_mem_right (docRead_cells hdoc) (mem_gateReads.mp hread)
  obtain ⟨t, ht⟩ := h.supported cell hcell (not_sdff_of_gate hok)
  obtain ⟨g, -, hjson, heq⟩ := cellJson_of_read hok ht
  obtain rfl := CellRead.gate.inj heq
  exact ⟨cell, hcell, g, hjson, rfl⟩

theorem Covered.covers (h : Covered doc (reads.flatMap Prod.fst) (reads.flatMap Prod.snd)) :
    Covers useM12 doc bc := by
  obtain ⟨submissions, hbuild⟩ : ∃ submissions, starpuBuildGraph useM12 bc = .ok submissions := by
    refine mapM_exists fun gate hgate => ?_
    obtain ⟨cell, hcell, g, hjson, rfl⟩ := h.gate hp hdoc hgate
    exact ⟨_, (h.submit hp hdoc hcell hjson).2⟩
  refine Or.inr ⟨submissions, hbuild, ?_⟩
  intro cell hcell hsdff
  obtain ⟨t, ht⟩ := h.supported cell hcell hsdff
  obtain ⟨read, -, hok⟩ := forall₂_mem_left (docRead_cells hdoc) hcell
  obtain ⟨g, rfl, hjson, rfl⟩ := cellJson_of_read hok ht
  obtain ⟨hmem, hsubmit⟩ := h.submit hp hdoc hcell hjson
  obtain ⟨submission, hsub, hsubmit'⟩ := mapM_mem hbuild hmem
  obtain rfl := Except.ok.inj (hsubmit'.symm.trans hsubmit)
  have hlook : ∀ id ∈ g.y :: g.operands, (slotOf bc id).net bc = some id := by
    obtain ⟨read, hread, hok'⟩ := forall₂_mem_left (docRead_cells hdoc) hcell
    obtain rfl := Except.ok.inj (hok'.symm.trans hok)
    exact fun id hid => searchPointer_net
      (h.lookup hp (mem_gateReads.mpr hread) id hid "")
  have hone : ∀ name ∈ "Y" :: g.type.pins.map Pin.name, ∀ id, pin cell name = .ok id →
      ∀ net ∈ pinNets cell name, net = id := by
    intro name hname id hid net hnet
    exact Except.ok.inj ((h.oneNet cell hcell g.type ht name hname net hnet).symm.trans hid)
  refine ⟨g.type, ht, g.insert (slotOf bc),
    List.mem_filterMap.mpr ⟨_, hsub, rfl⟩, rfl, ?_, ?_⟩
  · intro net hnet
    rw [hone "Y" List.mem_cons_self g.y hjson.2.1 net hnet]
    exact hlook g.y List.mem_cons_self
  · rw [Gate.insert, List.forall₂_map_right_iff, List.forall₂_same]
    intro p hp net hnet
    have hpin := GateType.mem_order.mp hp
    rw [hone p.name (List.mem_cons_of_mem _ (List.mem_map_of_mem hpin)) _ (hjson.2.2 p hpin)
      net hnet]
    exact hlook _ (List.mem_cons_of_mem _ (List.mem_map_of_mem hpin))

/-- A task for every cell leaves no flip-flop beside a gate. -/
theorem Covers.no_dff {submissions : List Submission}
    (hbuild : starpuBuildGraph useM12 bc = .ok submissions)
    (htasks : ∀ cell ∈ docCells doc, cellType cell ≠ .ok "$_SDFF_PP0_" →
      HasTask bc (insertedTasks submissions) cell) {cell : Json} {read : GateRead}
    (hcell : cell ∈ docCells doc) (hok : cellRead useM12 cell = .ok (.gate read)) :
    dffPairs (reads.flatMap Prod.snd) = [] := by
  obtain ⟨t, ht, -⟩ := htasks cell hcell (not_sdff_of_gate hok)
  obtain ⟨g, -, hjson, hread⟩ := cellJson_of_read hok ht
  obtain rfl := CellRead.gate.inj hread
  obtain ⟨read', hmem, hok'⟩ := forall₂_mem_left (docRead_cells hdoc) hcell
  obtain rfl := Except.ok.inj (hok'.symm.trans hok)
  have hgate : g.struct ∈ bc.gateVector := by
    rw [hp.gates]
    exact List.mem_map_of_mem (mem_gateReads.mpr hmem)
  obtain ⟨submission, -, hsub⟩ := mapM_mem hbuild hgate
  rcases submitGate_cases hsub with ⟨t, task, -, -, hsubmits⟩ | ⟨hnone, -⟩
  · have hq := searchPointer_dff hsubmits.target
    rwa [hp.dffQ, List.map_eq_nil_iff] at hq
  · exact absurd rfl (hnone g.type)

theorem Covers.covered (h : Covers useM12 doc bc) :
    Covered doc (reads.flatMap Prod.fst) (reads.flatMap Prod.snd) := by
  obtain ⟨submissions, hbuild, htasks⟩ := h.resolve_left fun ⟨what, hwhat⟩ =>
    starpuBuildGraph_not_thrown useM12 bc what hwhat
  have htask : ∀ cell ∈ docCells doc, ∀ t : GateType, cellType cell = .ok t.typeName →
      ∃ task : TaskInsert, (∀ net ∈ pinNets cell "Y", task.target.net bc = some net) ∧
        ∀ p ∈ t.pins, ∃ s : Slot, ∀ net ∈ pinNets cell p.name, s.net bc = some net := by
    intro cell hcell t ht
    have hsdff : cellType cell ≠ .ok "$_SDFF_PP0_" := by
      rw [ht, Ne, Except.ok.injEq]
      cases t <;> decide
    obtain ⟨t', ht', task, -, -, hY, hpins⟩ := htasks cell hcell hsdff
    obtain rfl := GateType.typeName_inj (Except.ok.inj (ht'.symm.trans ht))
    refine ⟨task, hY, fun p hp => ?_⟩
    obtain ⟨s, -, hs⟩ := forall₂_mem_left hpins (GateType.mem_order.mpr hp)
    exact ⟨s, hs⟩
  refine ⟨?_, ?_, ?_, ?_⟩
  · intro cell hcell hsdff
    obtain ⟨t, ht, -⟩ := htasks cell hcell hsdff
    exact ⟨t, ht⟩
  · intro cell hcell t ht name hname net hnet
    obtain ⟨read, -, hok⟩ := forall₂_mem_left (docRead_cells hdoc) hcell
    obtain ⟨g, rfl, hjson, -⟩ := cellJson_of_read hok ht
    obtain ⟨task, hY, hpins⟩ := htask cell hcell g.type ht
    -- All nets of a pin are the net of one slot, and the first of them is among them.
    rcases List.mem_cons.mp hname with rfl | hname
    · have hfirst := hY g.y (mem_pinNets hjson.2.1)
      rw [hjson.2.1, Option.some.inj (hfirst.symm.trans (hY net hnet))]
    · obtain ⟨p, hp, rfl⟩ := List.mem_map.mp hname
      obtain ⟨s, hs⟩ := hpins p hp
      have hpin := hjson.2.2 p hp
      have hfirst := hs (g.conn p) (mem_pinNets hpin)
      rw [hpin, Option.some.inj (hfirst.symm.trans (hs net hnet))]
  · intro id hid
    obtain ⟨read, hread, hid⟩ := List.mem_flatMap.mp hid
    obtain ⟨cell, hcell, hok⟩ := forall₂_mem_right (docRead_cells hdoc) (mem_gateReads.mp hread)
    have hdff := Covers.no_dff hp hdoc hbuild htasks hcell hok
    obtain ⟨t, ht, -⟩ := htasks cell hcell (not_sdff_of_gate hok)
    obtain ⟨g, rfl, hjson, heq⟩ := cellJson_of_read hok ht
    obtain rfl := CellRead.gate.inj heq
    obtain ⟨p, hp', rfl⟩ := List.mem_map.mp hid
    obtain ⟨-, -, hpins⟩ := htask cell hcell g.type ht
    obtain ⟨s, hs⟩ := hpins p hp'
    exact driven_of_slot hp hdff (hs _ (mem_pinNets (hjson.2.2 p hp')))
  · by_cases hgates : gateReads (reads.flatMap Prod.snd) = []
    · exact Or.inr hgates
    obtain ⟨read, hread⟩ := List.exists_mem_of_ne_nil _ hgates
    obtain ⟨cell, hcell, hok⟩ := forall₂_mem_right (docRead_cells hdoc) (mem_gateReads.mp hread)
    exact Or.inl (Covers.no_dff hp hdoc hbuild htasks hcell hok)

end Document

/-- **Every cell of an accepted document that is no flip-flop gets a task if and only if
the document is covered.** -/
theorem covers_iff {useM12 : Bool} {doc : Json} {bc : ParsedBC}
    {reads : List (List PortRead × List CellRead)} (hparse : parsedBC useM12 doc = .ok bc)
    (hdoc : docRead useM12 doc = .ok reads) :
    Covers useM12 doc bc ↔ Covered doc (reads.flatMap Prod.fst) (reads.flatMap Prod.snd) := by
  obtain ⟨reads', hdoc', hp⟩ := parsedBC_reads hparse
  obtain rfl := Except.ok.inj (hdoc'.symm.trans hdoc)
  exact ⟨fun h => h.covered hp hdoc, fun h => h.covers hp hdoc⟩

theorem sharedNand_covers : ∃ bc, parsedBC true sharedNand.toJson = .ok bc ∧
    Covers true sharedNand.toJson bc := by
  have hdoc : docRead true sharedNand.toJson
      = .ok [(sharedNand.portReads, sharedNand.cellReads)] := by
    rfl
  have hcells : docCells sharedNand.toJson
      = sharedNand.gates.map fun g => (Cell.gate g).toJson := by
    rfl
  have htype : ∀ g : Gate, cellType (Cell.gate g).toJson = .ok g.type.typeName :=
    fun g => cellType_eq_ok.mpr (Json.at_obj (by simp) (by simp))
  refine ⟨_, sharedNand_parsed true,
    (covers_iff (sharedNand_parsed true) hdoc).mpr ⟨?_, ?_, by decide, Or.inl rfl⟩⟩
  · intro cell hcell _
    rw [hcells] at hcell
    obtain ⟨g, -, rfl⟩ := List.mem_map.mp hcell
    exact ⟨g.type, htype g⟩
  · intro cell hcell t ht
    rw [hcells] at hcell
    obtain ⟨g, hg, rfl⟩ := List.mem_map.mp hcell
    obtain rfl := GateType.typeName_inj (Except.ok.inj ((htype g).symm.trans ht))
    have hfits : ∀ g ∈ sharedNand.gates, g.y < 2 ^ 32 ∧ ∀ p ∈ g.type.pins, g.conn p < 2 ^ 32 := by
      decide
    exact g.oneNet (hfits g hg).1 (hfits g hg).2

def aoi3Cell : Json :=
  .obj [("type", .str "$_AOI3_"), ("connections", .obj [("A", connJson 2), ("B", connJson 3),
    ("C", connJson 4), ("Y", connJson 5)])]

/-- A document with one AND-OR-INVERT gate of three inputs. -/
def aoi3Json : Json :=
  .obj [("modules", .obj [("top", .obj [
    ("ports", .obj [
      ("a", Port.toJson ⟨.input, [2]⟩), ("b", Port.toJson ⟨.input, [3]⟩),
      ("c", Port.toJson ⟨.input, [4]⟩), ("y", Port.toJson ⟨.output, [5]⟩)]),
    ("cells", .obj [("aoi", aoi3Cell)])])])]

/-- The AND-OR-INVERT gate is parsed, and then no task is submitted for it. -/
theorem aoi3_dropped :
    ¬ ∀ (useM12 : Bool) (doc : Json) (bc : ParsedBC), parsedBC useM12 doc = .ok bc →
      Covers useM12 doc bc := by
  intro h
  have hparse : parsedBC true aoi3Json = .ok
      { inputVector := [2, 3, 4], outputVector := [5],
        gateVector := [{ name := "AOI3", in0 := 2, in1 := 3, in2 := 4, out0 := 5 }],
        dependencyVector := [0, 0, 0, 0, 0, 1] } := by
    rfl
  rcases h true aoi3Json _ hparse with ⟨what, hwhat⟩ | ⟨submissions, hbuild, htasks⟩
  · exact starpuBuildGraph_not_thrown true _ what hwhat
  · have hcells : docCells aoi3Json = [aoi3Cell] := by rfl
    have htype : cellType aoi3Cell = .ok "$_AOI3_" := by rfl
    obtain ⟨t, ht, -⟩ := htasks aoi3Cell (hcells ▸ List.mem_singleton_self _) (by
      rw [htype]
      decide)
    have htype : "$_AOI3_" = t.typeName := Except.ok.inj (htype.symm.trans ht)
    cases t <;> exact absurd htype (by decide)

end Tangor
