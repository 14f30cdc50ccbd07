/-
The vectors of a parsed netlist, tied to the cells they come from.

Of a single module whose ports and cells have what the constructor reads
(`ModuleConnected`) the parse succeeds, and `Structured` says all of what it leaves: the
entries of the gate vector and of the two DFF vectors belong to the cells of their kind in
order, the ids of the ports are sorted, the wires are the gate outputs that are no outputs,
and the dependency vector names the last gate that drives a net.

Everything is said in terms of the document; the name of a cell is what its type stands for
(`StandsFor`), whatever the parser makes of it.  The induction is that of `Proofs/Parser.lean`;
what it leaves out is the dependency vector, whose invariant is `Depends`.
-/
import Tangor.Proofs.Accepts

namespace Tangor

namespace YosysJSONparser

open Fallible

variable {useM12 : Bool}

/-! ### The name of a cell -/

/-- The letters of a cell type between its first two characters and its last one. -/
def Inside (type letters : String) : Prop :=
  ∃ first second last, type.toList = first :: second :: (letters.toList ++ [last])

/-- What a cell type is called: a `$fa` is a full adder, any other type has its letters for a
name, but TFHE's `ANDYN` and `ORYN` are Yosys's `ANDNOT` and `ORNOT`. -/
inductive StandsFor : String → String → Prop
  | fa : StandsFor "$fa" "fa"
  | ANDNOT {type : String} (h : Inside type "ANDNOT") : StandsFor type "ANDYN"
  | ORNOT {type : String} (h : Inside type "ORNOT") : StandsFor type "ORYN"
  | other {type name : String} (h : Inside type name) (hfa : type ≠ "$fa")
      (hand : name ≠ "ANDNOT") (hor : name ≠ "ORNOT") : StandsFor type name

theorem inside_iff {type letters : String} :
    Inside type letters ↔
      3 ≤ type.length ∧ String.ofList (type.toList.drop 2).dropLast = letters := by
  rw [← String.length_toList, Inside]
  constructor
  · rintro ⟨first, second, last, h⟩
    rw [h]
    refine ⟨by simp, ?_⟩
    rw [List.drop_succ_cons, List.drop_succ_cons, List.drop_zero, List.dropLast_concat,
      String.ofList_toList]
  · rintro ⟨hlength, rfl⟩
    rcases htype : type.toList with _ | ⟨first, _ | ⟨second, rest⟩⟩
    · simp [htype] at hlength
    · simp [htype] at hlength
    · have hne : rest ≠ [] := by
        rintro rfl
        simp [htype] at hlength
      refine ⟨first, second, rest.getLast hne, ?_⟩
      rw [String.toList_ofList, List.drop_succ_cons, List.drop_succ_cons, List.drop_zero,
        List.dropLast_append_getLast hne]

/-- **The parser gives a cell the name its type stands for.** -/
theorem gateNameOf_eq_ok {type name : String} :
    gateNameOf type = .ok name ↔ StandsFor type name := by
  unfold gateNameOf
  by_cases hfa : type = "$fa"
  · subst hfa
    have houtside : ∀ letters ≠ "", ¬ Inside "$fa" letters := by
      intro letters hletters h
      exact hletters ((inside_iff.mp h).2.symm.trans (by decide))
    rw [if_pos rfl, Except.ok.injEq]
    constructor
    · rintro rfl
      exact .fa
    · intro h
      cases h with
      | fa => rfl
      | ANDNOT h => exact absurd h (houtside _ (by decide))
      | ORNOT h => exact absurd h (houtside _ (by decide))
      | other h hfa => exact absurd rfl hfa
  · rw [if_neg hfa]
    set letters := String.ofList (type.toList.drop 2).dropLast
    by_cases hshort : type.length < 3
    · rw [if_pos hshort]
      refine iff_of_false (by simp) fun h => ?_
      have hnot : ∀ letters, ¬ Inside type letters := fun letters h =>
        absurd (inside_iff.mp h).1 (Nat.not_le.mpr hshort)
      cases h with
      | fa => exact hfa rfl
      | ANDNOT h => exact hnot _ h
      | ORNOT h => exact hnot _ h
      | other h => exact hnot _ h
    · have hself : Inside type letters := inside_iff.mpr ⟨Nat.not_lt.mp hshort, rfl⟩
      have honly : ∀ {other}, Inside type other → letters = other := fun h => (inside_iff.mp h).2
      rw [if_neg hshort]
      show (if letters = "ANDNOT" then .ok "ANDYN" else if letters = "ORNOT" then .ok "ORYN"
        else .ok letters : Result String) = .ok name ↔ _
      constructor
      · intro h
        split_ifs at h with hand hor <;> obtain rfl := Except.ok.inj h
        · exact .ANDNOT (hand ▸ hself)
        · exact .ORNOT (hor ▸ hself)
        · exact .other hself hfa hand hor
      · intro h
        cases h with
        | fa => exact absurd rfl hfa
        | ANDNOT h => rw [if_pos (honly h)]
        | ORNOT h => rw [if_neg (by rw [honly h]; decide), if_pos (honly h)]
        | other h _ hand hor =>
            rw [honly h, if_neg hand, if_neg hor]

/-- The type of the cell stands for the name. -/
def Named (cell : Json) (name : String) : Prop :=
  ∃ type, cellType cell = .ok type ∧ StandsFor type name

theorem named_iff {cell : Json} {name : String} : Named cell name ↔ cellName cell = .ok name := by
  simp only [Named, cellName, bind_eq_ok, gateNameOf_eq_ok]

instance (cell : Json) (name : String) : Decidable (Named cell name) :=
  decidable_of_iff _ named_iff.symm

/-! ### What a document says -/

/-- The ids of all ports of a direction. -/
def portNets (direction : String) (ports : List Json) : List Nat :=
  ports.flatMap fun port =>
    if portDirection port = .ok direction then
      match portBits port with
      | .ok bits => bits.map Json.toUint
      | .error _ => []
    else []

/-- The cell is a flip-flop. -/
def IsDff (cell : Json) : Prop := Named cell "SDFF_PP0"

instance (cell : Json) : Decidable (IsDff cell) := inferInstanceAs (Decidable (Named _ _))

/-- The cell drives the net: with `Y`, or, a full adder, with `X`. -/
def Drives (cell : Json) (net : Nat) : Prop :=
  pin cell "Y" = .ok net ∨ Named cell "fa" ∧ pin cell "X" = .ok net

/-- The entry has the name the cell's type stands for, a full adder with a constant carry being
a half adder, and its operands and outputs are the nets of the pins such a cell has. -/
structure EntryOf (useM12 : Bool) (cell : Json) (gate : GateStruct) : Prop where
  name : ∃ name, Named cell name ∧
    gate.name = if name = "fa" ∧ pinIsString cell "C" = .ok true then "ha" else name
  in0 : pin cell "A" = .ok gate.in0
  in1 : ¬ Named cell "NOT" → pin cell "B" = .ok gate.in1
  select : Named cell "MUX" ∨ Named cell "NMUX" → pin cell "S" = .ok gate.in2
  third : Named cell "fa" ∧ pinIsString cell "C" = .ok false ∨
    useM12 ∧ (Named cell "AOI3" ∨ Named cell "OAI3") → pin cell "C" = .ok gate.in2
  out0 : pin cell "Y" = .ok gate.out0
  out1 : Named cell "fa" → pin cell "X" = .ok gate.out1

variable (useM12) in
/-- The cell has a type, and the pins that are read of a cell of that name have nets. -/
def CellConnected (cell : Json) : Prop :=
  ∃ name, Named cell name ∧ ∀ p ∈ pinNames useM12 name, PinOk name cell p

variable (useM12) in
/-- The module has ports and cells, with the integer connections they need. -/
def ModuleConnected (module : Json) : Prop :=
  (∃ ports, module.at "ports" = .ok ports ∧ ∀ port ∈ ports.items, PortOk port) ∧
    ∃ cells, module.at "cells" = .ok cells ∧ ∀ cell ∈ cells.items, CellConnected useM12 cell

theorem ModuleConnected.ok {module : Json} (h : ModuleConnected useM12 module) :
    ModuleOk useM12 module := by
  obtain ⟨hports, cells, hcells, hall⟩ := h
  refine ⟨hports, cells, hcells, fun cell hcell => ?_⟩
  obtain ⟨name, hname, hpins⟩ := hall cell hcell
  exact ⟨name, named_iff.mp hname, hpins⟩

/-- Gate `g`, counted from 1, is the last one that drives the net. -/
def LastDriver (gates : List Json) (net g : Nat) : Prop :=
  g ≠ 0 ∧ (∃ cell, gates[g - 1]? = some cell ∧ Drives cell net) ∧
    ∀ j cell, g ≤ j → gates[j]? = some cell → ¬ Drives cell net

/-- What the constructor leaves of the ports and cells of a module. -/
structure Structured (useM12 : Bool) (ports cells : List Json) (bc : ParsedBC) : Prop where
  gates : List.Forall₂ (EntryOf useM12) (cells.filter (¬ IsDff ·)) bc.gateVector
  dffQ : List.Forall₂ (fun cell q => pin cell "Q" = .ok q) (cells.filter (IsDff ·)) bc.dffQVector
  dffD : List.Forall₂ (fun cell d => pin cell "D" = .ok d) (cells.filter (IsDff ·)) bc.dffDVector
  inputSorted : bc.inputVector.Pairwise (· ≤ ·)
  input : bc.inputVector.Perm (portNets "input" ports)
  outputSorted : bc.outputVector.Pairwise (· ≤ ·)
  output : bc.outputVector.Perm (portNets "output" ports)
  wiresSorted : bc.wireVector.Pairwise (· < ·)
  wires : ∀ net, net ∈ bc.wireVector ↔
    (∃ cell ∈ cells.filter (¬ IsDff ·), Drives cell net) ∧ net ∉ portNets "output" ports
  driven : ∀ net, (∃ g, g ≠ 0 ∧ bc.dependencyVector[net]? = some g) ↔
    ∃ cell ∈ cells.filter (¬ IsDff ·), Drives cell net
  dependency : ∀ net g, g ≠ 0 → (bc.dependencyVector[net]? = some g ↔
    LastDriver (cells.filter (¬ IsDff ·)) net g)

/-! ### The dependency vector -/

/-- Entry `net` is the number of the last gate that drives the net, if there is one. -/
def Depends (dependencyVector : List Nat) (gates : List GateRead) : Prop :=
  ∀ net g, g ≠ 0 → (dependencyVector[net]? = some g ↔
    (∃ read, gates[g - 1]? = some read ∧ net ∈ read.outs) ∧
      ∀ j read, g ≤ j → gates[j]? = some read → net ∉ read.outs)

theorem getElem?_roomFor {bc : ParsedBC} {o net g : Nat} (ho : o < (roomFor bc o).length)
    (hg : g ≠ 0) : (roomFor bc o)[net]? = some g ↔ bc.dependencyVector[net]? = some g := by
  unfold roomFor at *
  split at ho
  · rename_i hle
    rw [if_pos hle]
    rw [length_resize] at ho
    rw [resize, List.take_of_length_le (by omega)]
    by_cases hnet : net < bc.dependencyVector.length
    · rw [List.getElem?_append_left hnet]
    · rw [List.getElem?_append_right (by omega), List.getElem?_replicate,
        List.getElem?_eq_none (by omega)]
      split
      · exact iff_of_false (fun h => hg (Option.some.inj h).symm) (Option.some_ne_none g).symm
      · exact Iff.rfl
  · rename_i hle
    rw [if_neg hle]

/-- Entering a net changes its entry and no other. -/
theorem recordOutput_dependency {bc bc' : ParsedBC} {gateIndex o : Nat}
    (h : recordOutput bc gateIndex o = .ok bc') {net g : Nat} (hg : g ≠ 0) :
    bc'.dependencyVector[net]? = some g ↔
      if net = o then g = gateIndex else bc.dependencyVector[net]? = some g := by
  rcases recordOutput_cases bc gateIndex o with ⟨hroom, bc'', h', hdep⟩ | ⟨-, what, h'⟩
  · obtain rfl : bc'' = bc' := Except.ok.inj (h'.symm.trans h)
    rw [hdep]
    by_cases hnet : net = o
    · subst hnet
      rw [if_pos rfl, List.getElem?_set_self hroom, Option.some.injEq]
      exact eq_comm
    · rw [if_neg hnet, List.getElem?_set_ne (Ne.symm hnet), getElem?_roomFor hroom hg]
  · exact absurd (h'.symm.trans h) nofun

theorem recordOutputs_dependency {bc bc' : ParsedBC} {gateIndex : Nat}
    {outs : List Nat} (h : recordOutputs bc gateIndex outs = .ok bc') {net g : Nat} (hg : g ≠ 0) :
    bc'.dependencyVector[net]? = some g ↔
      if net ∈ outs then g = gateIndex else bc.dependencyVector[net]? = some g := by
  induction outs generalizing bc with
  | nil =>
      obtain rfl : bc = bc' := by simpa [recordOutputs] using h
      simp
  | cons o outs ih =>
      simp only [recordOutputs, List.foldlM_cons, bind_eq_ok] at h
      obtain ⟨bc₁, hrec, h⟩ := h
      rw [ih h, recordOutput_dependency hrec hg]
      by_cases hnet : net = o <;> by_cases hmem : net ∈ outs <;> simp [hnet, hmem]

theorem getElem?_concat {α : Type} {l : List α} {a b : α} {j : Nat} :
    (l ++ [a])[j]? = some b ↔ l[j]? = some b ∨ j = l.length ∧ b = a := by
  rcases Nat.lt_trichotomy j l.length with hlt | rfl | hgt
  · rw [List.getElem?_append_left hlt]
    simp [Nat.ne_of_lt hlt]
  · simp [eq_comm]
  · rw [List.getElem?_eq_none (by simp; omega), List.getElem?_eq_none (by omega)]
    simp [Nat.ne_of_gt hgt]

/-- One gate more, whose nets have been entered. -/
theorem Depends.concat {dep dep' : List Nat} {gates : List GateRead} {read : GateRead}
    (h : Depends dep gates)
    (hnew : ∀ net g, g ≠ 0 → (dep'[net]? = some g ↔
      if net ∈ read.outs then g = gates.length + 1 else dep[net]? = some g)) :
    Depends dep' (gates ++ [read]) := by
  intro net g hg
  rw [hnew net g hg]
  by_cases hmem : net ∈ read.outs
  · rw [if_pos hmem]
    constructor
    · rintro rfl
      refine ⟨⟨read, getElem?_concat.mpr (Or.inr ⟨rfl, rfl⟩), hmem⟩, ?_⟩
      intro j other hj hother
      rcases getElem?_concat.mp hother with hold | ⟨rfl, -⟩
      · exact absurd (List.getElem?_eq_some_iff.mp hold).1 (by omega)
      · exact absurd hj (Nat.not_succ_le_self _)
    · rintro ⟨⟨other, hother, -⟩, hlast⟩
      -- A gate before the last one is not the last that drives the net.
      have hle : ¬ g ≤ gates.length := fun hle =>
        hlast _ read hle (getElem?_concat.mpr (Or.inr ⟨rfl, rfl⟩)) hmem
      have hlt : g - 1 < (gates ++ [read]).length := (List.getElem?_eq_some_iff.mp hother).1
      rw [List.length_append, List.length_singleton] at hlt
      omega
  · rw [if_neg hmem, h net g hg]
    constructor
    · rintro ⟨⟨other, hother, hdrives⟩, hlast⟩
      refine ⟨⟨other, getElem?_concat.mpr (Or.inl hother), hdrives⟩, ?_⟩
      intro j other' hj hother'
      rcases getElem?_concat.mp hother' with hold | ⟨-, rfl⟩
      · exact hlast j other' hj hold
      · exact hmem
    · rintro ⟨⟨other, hother, hdrives⟩, hlast⟩
      refine ⟨?_, fun j other' hj hold => hlast j other' hj (getElem?_concat.mpr (Or.inl hold))⟩
      rcases getElem?_concat.mp hother with hold | ⟨-, rfl⟩
      · exact ⟨other, hold, hdrives⟩
      · exact absurd hdrives hmem

theorem depends_nil : Depends [] [] := by
  intro net g _
  simp

/-- A round of the cell loop keeps the dependency vector right. -/
theorem readCell_depends {st st' : ParseState} {cell : Json} {cells : List CellRead}
    (hs : Depends st.bc.dependencyVector (gateReads cells) ∧
      st.gateIndex = (gateReads cells).length + 1)
    (h : readCell useM12 st cell = .ok st') :
    ∃ read, cellRead useM12 cell = .ok read ∧
      Depends st'.bc.dependencyVector (gateReads (cells ++ [read])) ∧
      st'.gateIndex = (gateReads (cells ++ [read])).length + 1 := by
  obtain ⟨read, hread, hentered⟩ := readCell_ok h
  refine ⟨read, hread, ?_⟩
  cases read with
  | dff q d =>
      obtain rfl := hentered
      have hgates : gateReads (cells ++ [.dff q d]) = gateReads cells := by
        simp [gateReads, CellRead.gate?]
      rw [hgates]
      exact hs
  | gate read =>
      obtain ⟨bc', hrec, rfl⟩ := hentered
      have hgates : gateReads (cells ++ [.gate read]) = gateReads cells ++ [read] := by
        simp [gateReads, CellRead.gate?]
      rw [hgates]
      refine ⟨hs.1.concat fun net g hg => ?_, by simp [hs.2]⟩
      rw [← hs.2]
      exact recordOutputs_dependency hrec hg

theorem readPort_dependency {st st' : ParseState} {port : Json} (h : readPort st port = .ok st') :
    st'.bc.dependencyVector = st.bc.dependencyVector ∧ st'.gateIndex = st.gateIndex := by
  rw [readPort_eq, bind_eq_ok] at h
  obtain ⟨direction, -, h⟩ := h
  split at h
  · simp only [bind_eq_ok, pure_eq_ok] at h
    obtain ⟨_, _, rfl⟩ := h
    exact ⟨rfl, rfl⟩
  · split at h
    · simp only [bind_eq_ok, pure_eq_ok] at h
      obtain ⟨_, _, rfl⟩ := h
      exact ⟨rfl, rfl⟩
    · cases h

/-- The dependency vector of a document with one module. -/
theorem parsedBC_depends {doc module : Json} {bc : ParsedBC} (hone : SingleModule doc module)
    (h : parsedBC useM12 doc = .ok bc) {ports : List PortRead} {cells : List CellRead}
    (hread : moduleRead useM12 module = .ok (ports, cells)) :
    Depends bc.dependencyVector (gateReads cells) := by
  obtain ⟨modules, hmods, hitems⟩ := hone
  simp only [parsedBC, hmods, hitems, ok_bind, bind_eq_ok, pure_eq_ok, List.foldlM_cons,
    List.foldlM_nil, readModule] at h
  obtain ⟨st, ⟨st', ⟨portsJson, _, st₁, hports, cellsJson, hcells, hloop⟩, rfl⟩, rfl⟩ := h
  have hst₁ : st₁.bc.dependencyVector = [] ∧ st₁.gateIndex = 1 :=
    foldlM_inv (P := fun st => st.bc.dependencyVector = [] ∧ st.gateIndex = 1)
      (fun s a s' hs _ hstep => by
        obtain ⟨hdep, hindex⟩ := readPort_dependency hstep
        exact ⟨hdep.trans hs.1, hindex.trans hs.2⟩) ⟨rfl, rfl⟩ hports
  obtain ⟨reads, hreads, hdep, -⟩ := foldlM_collect
    (P := fun st reads => Depends st.bc.dependencyVector (gateReads reads) ∧
      st.gateIndex = (gateReads reads).length + 1)
    (fun st cell st' reads hs h => readCell_depends hs h) (r := [])
    ⟨hst₁.1 ▸ depends_nil, hst₁.2⟩ hloop
  simp only [moduleRead, hcells, hreads, ok_bind, bind_eq_ok, pure_eq_ok, Prod.mk.injEq] at hread
  obtain ⟨_, _, _, _, -, rfl⟩ := hread
  simpa using hdep

/-! ### The cells -/

/-- What is read off a gate: its entry, and the nets it drives. -/
structure GateOf (useM12 : Bool) (cell : Json) (read : GateRead) : Prop where
  entry : EntryOf useM12 cell read.gate
  drives : ∀ net, net ∈ read.outs ↔ Drives cell net

theorem cellRead_eq (useM12 : Bool) (cell : Json) :
    cellRead useM12 cell = cellName cell >>= fun name =>
      if name = "SDFF_PP0" then pin cell "Q" >>= fun q => pin cell "D" >>= fun d =>
        pure (.dff q d)
      else pin cell "Y" >>= fun y => pin cell "A" >>= fun a =>
        operandsRead useM12 cell { name := name, in0 := a, out0 := y } >>= fun read =>
          pure (.gate read) := by
  simp only [cellRead, cellName, cellType, bind_assoc]

/-- The operands an entry has, by its name. -/
theorem OperandsRead.pins {cell : Json} {gate : GateStruct} (h : OperandsRead useM12 cell gate) :
    pin cell "A" = .ok gate.in0 ∧ (gate.name ≠ "NOT" → pin cell "B" = .ok gate.in1) ∧
      (gate.name = "MUX" ∨ gate.name = "NMUX" → pin cell "S" = .ok gate.in2) ∧
      (gate.name = "fa" ∨ useM12 ∧ (gate.name = "AOI3" ∨ gate.name = "OAI3") →
        pin cell "C" = .ok gate.in2) := by
  have hmem : ∀ {p : String} {net : Nat}, (p, net) ∈ usedOperands useM12 gate →
      pin cell p = .ok net := fun h' => h _ h'
  refine ⟨hmem ?_, fun hnot => hmem ?_, fun hmux => hmem ?_, fun hthird => hmem ?_⟩ <;>
    unfold usedOperands
  · split_ifs <;> exact List.mem_cons_self
  · rw [if_neg hnot]
    split_ifs <;> exact List.mem_cons_of_mem _ List.mem_cons_self
  · have hnot : gate.name ≠ "NOT" := by
      rcases hmux with h | h <;> rw [h] <;> decide
    simp [hnot, hmux]
  · have hnot : gate.name ≠ "NOT" ∧ ¬ (gate.name = "MUX" ∨ gate.name = "NMUX") := by
      rcases hthird with h | ⟨-, h | h⟩ <;> rw [h] <;> decide
    simp [hnot.1, hnot.2, hthird]

theorem gateOf_outputs {cell : Json} {name : String} {a y : Nat} {read : GateRead}
    (hname : cellName cell = .ok name) (hy : pin cell "Y" = .ok y)
    (hoperands : OperandsRead useM12 cell read.gate)
    (h : OutputsRead cell { name := name, in0 := a, out0 := y } read) :
    GateOf useM12 cell read := by
  have hnamed : ∀ {other}, Named cell other ↔ name = other := by
    intro other
    rw [named_iff, hname, Except.ok.injEq]
  have hkept : name ≠ "fa" → read.gate.name = name := fun hfa =>
    h.name.trans (if_neg fun hcarry => hfa hcarry.1)
  obtain ⟨hA, hB, hS, hC⟩ := hoperands.pins
  constructor
  · exact {
      name := ⟨name, hnamed.mpr rfl, h.name⟩
      in0 := hA
      in1 := fun hnot => hB fun hgate => by
        rw [h.name] at hgate
        split_ifs at hgate
        · exact absurd hgate (by decide)
        · exact hnot (hnamed.mpr hgate)
      select := fun hmux => hS (by
        rw [hnamed, hnamed] at hmux
        rwa [hkept (by rcases hmux with h | h <;> rw [h] <;> decide)])
      third := fun hthird => hC (by
        rw [hnamed, hnamed, hnamed] at hthird
        rcases hthird with ⟨hfa, hcarry⟩ | ⟨hm12, hthird⟩
        · refine Or.inl (h.name.trans ?_)
          rw [if_neg fun hconst => absurd (hcarry.symm.trans hconst.2) (by simp)]
          exact hfa
        · rw [hkept (by rcases hthird with h | h <;> rw [h] <;> decide)]
          exact Or.inr ⟨hm12, hthird⟩)
      out0 := h.out0 ▸ hy
      out1 := fun hcell => (h.second (hnamed.mp hcell)).1 }
  · intro net
    rw [Drives, hy, hnamed, Except.ok.injEq]
    by_cases hcell : name = "fa"
    · obtain ⟨hx, houts⟩ := h.second hcell
      rw [houts, hx, Except.ok.injEq]
      simp [hcell, eq_comm]
    · rw [h.only hcell]
      simp [hcell, eq_comm]

/-- A cell is read as what it is. -/
theorem cellRead_cases {cell : Json} {read : CellRead} (h : cellRead useM12 cell = .ok read) :
    (IsDff cell ∧ ∃ q d, read = .dff q d ∧ pin cell "Q" = .ok q ∧ pin cell "D" = .ok d) ∨
      ¬ IsDff cell ∧ ∃ gate, read = .gate gate ∧ GateOf useM12 cell gate := by
  have hread := h
  rw [cellRead_eq, bind_eq_ok] at h
  obtain ⟨name, hname, h⟩ := h
  by_cases hdff : name = "SDFF_PP0"
  · rw [if_pos hdff] at h
    simp only [bind_eq_ok, pure_eq_ok] at h
    obtain ⟨q, hq, d, hd, rfl⟩ := h
    exact Or.inl ⟨named_iff.mpr (hname.trans (congrArg _ hdff)), q, d, rfl, hq, hd⟩
  · rw [if_neg hdff] at h
    simp only [bind_eq_ok, pure_eq_ok] at h
    obtain ⟨y, hy, a, ha, gate, hops, rfl⟩ := h
    refine Or.inr ⟨fun hcell => ?_, gate, rfl, ?_⟩
    · exact hdff (Except.ok.inj (hname.symm.trans (named_iff.mp hcell)))
    exact gateOf_outputs hname hy (cellRead_operands hread) (operandsRead_outputs hops)

theorem gates_read {cells : List Json} {reads : List CellRead}
    (h : List.Forall₂ (fun cell read => cellRead useM12 cell = .ok read) cells reads) :
    List.Forall₂ (GateOf useM12) (cells.filter (¬ IsDff ·)) (gateReads reads) := by
  refine forall₂_filter_filterMap (fun cell read hread => ?_) h
  rcases cellRead_cases hread with ⟨hdff, q, d, rfl, -, -⟩ | ⟨hdff, gate, rfl, hgate⟩
  · exact Or.inr ⟨not_not_intro hdff, rfl⟩
  · exact Or.inl ⟨hdff, gate, rfl, hgate⟩

theorem dffs_read {cells : List Json} {reads : List CellRead}
    (h : List.Forall₂ (fun cell read => cellRead useM12 cell = .ok read) cells reads) :
    List.Forall₂ (fun cell (qd : Nat × Nat) => pin cell "Q" = .ok qd.1 ∧ pin cell "D" = .ok qd.2)
      (cells.filter (IsDff ·)) (dffPairs reads) := by
  refine forall₂_filter_filterMap (fun cell read hread => ?_) h
  rcases cellRead_cases hread with ⟨hdff, q, d, rfl, hq, hd⟩ | ⟨hdff, gate, rfl, -⟩
  · exact Or.inl ⟨hdff, (q, d), rfl, hq, hd⟩
  · exact Or.inr ⟨hdff, rfl⟩

/-- The nets the gates drive are the ones the cells name. -/
theorem mem_gateOuts {cells : List Json} {reads : List CellRead}
    (h : List.Forall₂ (GateOf useM12) cells (gateReads reads)) {net : Nat} :
    net ∈ gateOuts reads ↔ ∃ cell ∈ cells, Drives cell net := by
  rw [gateOuts, List.mem_flatMap]
  constructor
  · rintro ⟨read, hread, hnet⟩
    obtain ⟨cell, hcell, hgate⟩ := forall₂_mem_right h hread
    exact ⟨cell, hcell, (hgate.drives net).mp hnet⟩
  · rintro ⟨cell, hcell, hdrives⟩
    obtain ⟨read, hread, hgate⟩ := forall₂_mem_left h hcell
    exact ⟨read, hread, (hgate.drives net).mpr hdrives⟩

/-! ### The ports -/

theorem portRead_eq (port : Json) :
    portRead port = portDirection port >>= fun direction =>
      if direction = "input" then portBits port >>= fun bits => pure (.input (bits.map Json.toUint))
      else if direction = "output" then portBits port >>= fun bits =>
        pure (.output (bits.map Json.toUint))
      else .error (.thrown "Port Definition Error") := by
  simp only [portRead, portDirection, portBits, bind_assoc]

/-- The ids of one port, when it has the direction. -/
theorem portNets_cons (direction : String) (port : Json) (ports : List Json) :
    portNets direction (port :: ports) = portNets direction [port] ++ portNets direction ports := by
  simp [portNets]

theorem portRead_nets {port : Json} {read : PortRead} (h : portRead port = .ok read) :
    inputBits [read] = portNets "input" [port] ∧ outputBits [read] = portNets "output" [port] := by
  rw [portRead_eq, bind_eq_ok] at h
  obtain ⟨direction, hdir, h⟩ := h
  by_cases hin : direction = "input"
  · rw [if_pos hin] at h
    simp only [bind_eq_ok, pure_eq_ok] at h
    obtain ⟨bits, hbits, rfl⟩ := h
    simp [inputBits, outputBits, portNets, hdir, hin, hbits]
  · rw [if_neg hin] at h
    by_cases hout : direction = "output"
    · rw [if_pos hout] at h
      simp only [bind_eq_ok, pure_eq_ok] at h
      obtain ⟨bits, hbits, rfl⟩ := h
      simp [inputBits, outputBits, portNets, hdir, hout, hbits]
    · rw [if_neg hout] at h
      cases h

theorem ports_read {ports : List Json} {reads : List PortRead}
    (h : List.Forall₂ (fun port read => portRead port = .ok read) ports reads) :
    inputBits reads = portNets "input" ports ∧ outputBits reads = portNets "output" ports := by
  induction h with
  | nil => exact ⟨rfl, rfl⟩
  | @cons port read ports reads hread _ ih =>
      obtain ⟨hin, hout⟩ := portRead_nets hread
      constructor
      · rw [portNets_cons _ port ports, ← hin, ← ih.1, ← inputBits_append]
        rfl
      · rw [portNets_cons _ port ports, ← hout, ← ih.2, ← outputBits_append]
        rfl

/-! ### The structure of a parse -/

theorem lastDriver_depends {dep : List Nat} {gates : List Json} {reads : List GateRead}
    (hgates : List.Forall₂ (GateOf useM12) gates reads) (h : Depends dep reads) {net g : Nat}
    (hg : g ≠ 0) : dep[net]? = some g ↔ LastDriver gates net g := by
  have hget : ∀ j : Nat, (∃ cell, gates[j]? = some cell ∧ Drives cell net) ↔
      ∃ read : GateRead, reads[j]? = some read ∧ net ∈ read.outs := by
    intro j
    constructor
    · rintro ⟨cell, hcell, hdrives⟩
      obtain ⟨read, hread, hgate⟩ := Fallible.forall₂_getElem?_left hgates hcell
      exact ⟨read, hread, (hgate.drives net).mpr hdrives⟩
    · rintro ⟨read, hread, hnet⟩
      obtain ⟨cell, hcell, hgate⟩ := Fallible.forall₂_getElem?_right hgates hread
      exact ⟨cell, hcell, (hgate.drives net).mp hnet⟩
  rw [h net g hg, LastDriver, hget, and_iff_right hg]
  refine and_congr_right fun _ => forall_congr' fun j => ?_
  have hj := not_congr (hget j)
  simp only [not_exists, not_and] at hj
  exact ⟨fun h cell hle => hj.mpr (fun read => h read hle) cell,
    fun h read hle => hj.mp (fun cell => h cell hle) read⟩

/-- Some gate is the last that drives a net exactly when one does. -/
theorem exists_lastDriver {gates : List Json} {net : Nat} :
    (∃ g, LastDriver gates net g) ↔ ∃ cell ∈ gates, Drives cell net := by
  constructor
  · rintro ⟨g, -, ⟨cell, hcell, hdrives⟩, -⟩
    exact ⟨cell, List.mem_of_getElem? hcell, hdrives⟩
  · rintro ⟨cell, hcell, hdrives⟩
    classical
    -- The largest position at which the net is driven.
    obtain ⟨i, hi⟩ := List.getElem?_of_mem hcell
    let P : Nat → Prop := fun j => ∃ cell, gates[j]? = some cell ∧ Drives cell net
    have hbound : ∀ j, P j → j < gates.length := fun j ⟨_, h, _⟩ =>
      (List.getElem?_eq_some_iff.mp h).1
    have hPi : P i := ⟨cell, hi, hdrives⟩
    have hgreatest := Nat.findGreatest_spec (Nat.le_of_lt (hbound i hPi)) hPi
    refine ⟨Nat.findGreatest P gates.length + 1, Nat.succ_ne_zero _, hgreatest, ?_⟩
    intro j cell' hj hcell' hdrives'
    have hPj : P j := ⟨cell', hcell', hdrives'⟩
    exact Nat.findGreatest_is_greatest hj (Nat.le_of_lt (hbound j hPj)) hPj

/-- The wires are sorted, and no one is there twice. -/
theorem parsedBC_wires {doc : Json} {bc : ParsedBC} (h : parsedBC useM12 doc = .ok bc) :
    bc.wireVector.Pairwise (· < ·) := by
  obtain ⟨reads, -, hparsed⟩ := parsedBC_reads h
  have hle : bc.wireVector.Pairwise (· ≤ ·) := by
    simp only [parsedBC, bind_eq_ok, pure_eq_ok] at h
    obtain ⟨modules, -, st, -, rfl⟩ := h
    exact sort_pairwise _
  exact (hle.and hparsed.wiresNodup).imp fun h => Nat.lt_of_le_of_ne h.1 h.2

/-- **The vectors of the parse of a single module are tied to its ports and cells.** -/
theorem parse_structured {doc module : Json} (hone : SingleModule doc module)
    (hconnected : ModuleConnected useM12 module) :
    ∃ ports cells bc, module.at "ports" = .ok ports ∧ module.at "cells" = .ok cells ∧
      parsedBC useM12 doc = .ok bc ∧ Structured useM12 ports.items cells.items bc := by
  have hdoc : DocOk useM12 doc := by
    obtain ⟨modules, hmods, hitems⟩ := hone
    exact ⟨modules, hmods, by simpa [hitems] using hconnected.ok⟩
  obtain ⟨bc, hbc⟩ := (parsedBC_decides doc).returns.mpr hdoc
  obtain ⟨reads, hreads, -⟩ := parsedBC_reads hbc
  obtain ⟨⟨portReads, cellReads⟩, hread, -⟩ := docRead_single hone hreads
  have hparsed := parsed_single hone hbc hread
  have hdepends := parsedBC_depends hone hbc hread
  simp only [moduleRead, bind_eq_ok, pure_eq_ok, Prod.mk.injEq] at hread
  obtain ⟨ports, hports, _, hportReads, cells, hcells, _, hcellReads, rfl, rfl⟩ := hread
  have hnets := ports_read (mapM_eq_ok.mp hportReads)
  have hgates := gates_read (mapM_eq_ok.mp hcellReads)
  have hdffs := dffs_read (mapM_eq_ok.mp hcellReads)
  have hlast : ∀ net g, g ≠ 0 → (bc.dependencyVector[net]? = some g ↔
      LastDriver (cells.items.filter (¬ IsDff ·)) net g) :=
    fun net g hg => lastDriver_depends hgates hdepends hg
  have hperm : bc.outputVector.Perm (portNets "output" ports.items) := by
    rw [hparsed.output, ← hnets.2]
    exact sort_perm _
  refine ⟨ports, cells, bc, hports, hcells, hbc, ?_⟩
  exact {
    gates := by
      rw [hparsed.gates, List.forall₂_map_right_iff]
      exact hgates.imp fun cell read h => h.entry
    dffQ := by
      rw [hparsed.dffQ, List.forall₂_map_right_iff]
      exact hdffs.imp fun cell qd h => h.1
    dffD := by
      rw [hparsed.dffD, List.forall₂_map_right_iff]
      exact hdffs.imp fun cell qd h => h.2
    inputSorted := hparsed.input ▸ sort_pairwise _
    input := by
      rw [hparsed.input, ← hnets.1]
      exact sort_perm _
    outputSorted := hparsed.output ▸ sort_pairwise _
    output := hperm
    wiresSorted := parsedBC_wires hbc
    wires := fun net => by
      rw [← mem_gateOuts hgates, ← hperm.mem_iff]
      constructor
      · intro hw
        exact ⟨hparsed.wiresDriven net hw, wire_not_output hone hbc net hw⟩
      · rintro ⟨hout, hnot⟩
        exact (hparsed.outsKept net hout).resolve_right hnot
    driven := fun net => by
      rw [← exists_lastDriver]
      constructor
      · rintro ⟨g, hg, h⟩
        exact ⟨g, (hlast net g hg).mp h⟩
      · rintro ⟨g, h⟩
        exact ⟨g, h.1, (hlast net g h.1).mpr h⟩
    dependency := hlast }

/-- A full adder with a constant carry, and a flip-flop on its sum. -/
def adderModule : Json :=
  .obj [
    ("ports", .obj [
      ("a", .obj [("direction", .str "input"), ("bits", .arr [.int 2, .int 3])]),
      ("s", .obj [("direction", .str "output"), ("bits", .arr [.int 6])])]),
    ("cells", .obj [
      ("adder", .obj [("type", .str "$fa"), ("connections", .obj [
        ("A", .arr [.int 2]), ("B", .arr [.int 3]), ("C", .arr [.str "0"]),
        ("X", .arr [.int 4]), ("Y", .arr [.int 5])])]),
      ("state", .obj [("type", .str "$_SDFF_PP0_"), ("connections", .obj [
        ("D", .arr [.int 5]), ("Q", .arr [.int 6])])])])]

theorem adderModule_connected : ModuleConnected false adderModule := by
  refine ⟨⟨_, rfl, ?_⟩, ⟨_, rfl, ?_⟩⟩
  · refine List.forall_mem_cons.mpr ⟨⟨"input", rfl, Or.inl rfl, _, rfl⟩, ?_⟩
    exact List.forall_mem_cons.mpr ⟨⟨"output", rfl, Or.inr rfl, _, rfl⟩, nofun⟩
  · refine List.forall_mem_cons.mpr ⟨⟨"fa", ⟨_, rfl, .fa⟩, ?_⟩, ?_⟩
    · refine List.forall_mem_cons.mpr ⟨Or.inr ⟨5, rfl, fun _ => by decide⟩, ?_⟩
      refine List.forall_mem_cons.mpr ⟨Or.inr ⟨2, rfl, fun _ => by decide⟩, ?_⟩
      refine List.forall_mem_cons.mpr ⟨Or.inr ⟨3, rfl, fun _ => by decide⟩, ?_⟩
      refine List.forall_mem_cons.mpr ⟨Or.inr ⟨4, rfl, fun _ => by decide⟩, ?_⟩
      exact List.forall_mem_cons.mpr ⟨Or.inl ⟨rfl, rfl, rfl⟩, nofun⟩
    · refine List.forall_mem_cons.mpr ⟨⟨"SDFF_PP0", ⟨_, rfl, .other ⟨'$', '_', '_', rfl⟩
        (by decide) (by decide) (by decide)⟩, ?_⟩, nofun⟩
      refine List.forall_mem_cons.mpr ⟨Or.inr ⟨6, rfl, fun _ => by decide⟩, ?_⟩
      exact List.forall_mem_cons.mpr ⟨Or.inr ⟨5, rfl, fun _ => by decide⟩, nofun⟩

/-- The parse ties a full adder with a constant carry to its cell. -/
theorem parse_structured_adder :
    ∃ ports cells bc, adderModule.at "ports" = .ok ports ∧ adderModule.at "cells" = .ok cells ∧
      parsedBC false (.obj [("modules", .obj [("top", adderModule)])]) = .ok bc ∧
      Structured false ports.items cells.items bc :=
  parse_structured ⟨_, rfl, rfl⟩ adderModule_connected

end YosysJSONparser

end Tangor
