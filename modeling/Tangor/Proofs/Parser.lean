/-
What a successful parse leaves behind.

`readPort` and `readCell` do two things at once: they take a few values out of the
document and enter them into the object under construction.  `portRead` and
`cellRead` are the first half alone, and `Holds` is the second half stated as an
invariant: the object is what the ports and cells read so far amount to.  Each round
of the parser's loops extends the lists by one (`readPort_holds`, `readCell_holds`),
so at the end `parsedBC_reads` describes the whole object by what was read.

For a document with one module one thing more is true.  All ports are read before
any cell, so a wire is never an output (`wire_not_output`).
-/
import Tangor.Netlist
import Tangor.Fallible

namespace Tangor

namespace YosysJSONparser

open Fallible

/-- What is read off a port. -/
inductive PortRead where
  | input (bits : List Nat)
  | output (bits : List Nat)

/-- What is read off a cell that is not a flip-flop: its entry of the gate vector, and
which nets it reads and drives. -/
structure GateRead where
  gate : GateStruct
  ins : List Nat
  outs : List Nat

/-- What is read off a cell. -/
inductive CellRead where
  | dff (q d : Nat)
  | gate (read : GateRead)

def portRead (port : Json) : Result PortRead := do
  let direction ← (← port.at "direction").getString
  if direction = "input" then
    let bits ← (← port.at "bits").getIntVector
    return .input (bits.map Json.toUint)
  else if direction = "output" then
    let bits ← (← port.at "bits").getIntVector
    return .output (bits.map Json.toUint)
  else
    .error (.thrown "Port Definition Error")

def operandsRead (useM12 : Bool) (cell : Json) (gate : GateStruct) : Result GateRead := do
  if gate.name = "NOT" then
    return ⟨gate, [gate.in0], [gate.out0]⟩
  let b ← pin cell "B"
  if gate.name = "MUX" ∨ gate.name = "NMUX" then
    let s ← pin cell "S"
    return ⟨{ gate with in1 := b, in2 := s }, [gate.in0, b, s], [gate.out0]⟩
  else if gate.name = "fa" then
    let x ← pin cell "X"
    if ← pinIsString cell "C" then
      return ⟨{ gate with in1 := b, out1 := x, name := "ha" }, [gate.in0, b], [gate.out0, x]⟩
    else
      let c ← pin cell "C"
      return ⟨{ gate with in1 := b, out1 := x, in2 := c }, [gate.in0, b, c], [gate.out0, x]⟩
  else if useM12 ∧ (gate.name = "AOI3" ∨ gate.name = "OAI3") then
    let c ← pin cell "C"
    return ⟨{ gate with in1 := b, in2 := c }, [gate.in0, b, c], [gate.out0]⟩
  else
    return ⟨{ gate with in1 := b }, [gate.in0, b], [gate.out0]⟩

def cellRead (useM12 : Bool) (cell : Json) : Result CellRead := do
  let gateName ← gateNameOf (← (← cell.at "type").getString)
  if gateName = "SDFF_PP0" then
    let q ← pin cell "Q"
    let d ← pin cell "D"
    return .dff q d
  else
    let y ← pin cell "Y"
    let a ← pin cell "A"
    return .gate (← operandsRead useM12 cell { name := gateName, in0 := a, out0 := y })

/-- The entry keeps its first net, a `$fa` has `X` for a second one, and is renamed when its
carry is a constant. -/
structure OutputsRead (cell : Json) (gate : GateStruct) (read : GateRead) : Prop where
  name : read.gate.name =
    if gate.name = "fa" ∧ pinIsString cell "C" = .ok true then "ha" else gate.name
  out0 : read.gate.out0 = gate.out0
  second : gate.name = "fa" →
    pin cell "X" = .ok read.gate.out1 ∧ read.outs = [gate.out0, read.gate.out1]
  only : gate.name ≠ "fa" → read.outs = [gate.out0]

theorem operandsRead_outputs {useM12 : Bool} {cell : Json} {gate : GateStruct} {read : GateRead}
    (h : operandsRead useM12 cell gate = .ok read) : OutputsRead cell gate read := by
  unfold operandsRead at h
  by_cases hnot : gate.name = "NOT"
  · rw [if_pos hnot, pure_eq_ok] at h
    subst h
    constructor <;> simp [hnot]
  rw [if_neg hnot] at h
  obtain ⟨b, -, h⟩ := bind_eq_ok.mp h
  by_cases hmux : gate.name = "MUX" ∨ gate.name = "NMUX"
  · have hne : gate.name ≠ "fa" := by
      rcases hmux with hmux | hmux <;> rw [hmux] <;> decide
    rw [if_pos hmux] at h
    obtain ⟨s, -, h⟩ := bind_eq_ok.mp h
    obtain rfl := pure_eq_ok.mp h
    constructor <;> simp [hne]
  rw [if_neg hmux] at h
  by_cases hfa : gate.name = "fa"
  · rw [if_pos hfa] at h
    simp only [bind_eq_ok] at h
    obtain ⟨x, hx, isString, hconst, h⟩ := h
    split at h
    · rename_i hstring
      obtain rfl := pure_eq_ok.mp h
      constructor <;> simp [hfa, hx, hconst, hstring]
    · rename_i hstring
      obtain ⟨c, -, h⟩ := bind_eq_ok.mp h
      obtain rfl := pure_eq_ok.mp h
      constructor <;> simp [hfa, hx, hconst, hstring]
  rw [if_neg hfa] at h
  split at h
  · obtain ⟨c, -, h⟩ := bind_eq_ok.mp h
    obtain rfl := pure_eq_ok.mp h
    constructor <;> simp [hfa]
  · obtain rfl := pure_eq_ok.mp h
    constructor <;> simp [hfa]

/-- The first output position of an entry is one of the nets its cell drives. -/
theorem OutputsRead.mem {cell : Json} {gate : GateStruct} {read : GateRead}
    (h : OutputsRead cell gate read) : gate.out0 ∈ read.outs := by
  by_cases hfa : gate.name = "fa"
  · rw [(h.second hfa).2]
    exact List.mem_cons_self
  · rw [h.only hfa]
    exact List.mem_singleton_self _

/-! ### What the ports and cells amount to -/

def inputBits (ports : List PortRead) : List Nat :=
  ports.flatMap fun | .input bits => bits | .output _ => []

def outputBits (ports : List PortRead) : List Nat :=
  ports.flatMap fun | .input _ => [] | .output bits => bits

def CellRead.gate? : CellRead → Option GateRead
  | .dff _ _ => none
  | .gate read => some read

def dffPairs (cells : List CellRead) : List (Nat × Nat) :=
  cells.filterMap fun | .dff q d => some (q, d) | .gate _ => none

def gateReads (cells : List CellRead) : List GateRead := cells.filterMap CellRead.gate?

/-- The nets some gate drives. -/
def gateOuts (cells : List CellRead) : List Nat := (gateReads cells).flatMap GateRead.outs

/-- The nets some gate reads. -/
def gateIns (cells : List CellRead) : List Nat := (gateReads cells).flatMap GateRead.ins

@[simp] theorem inputBits_append (ps qs : List PortRead) :
    inputBits (ps ++ qs) = inputBits ps ++ inputBits qs := List.flatMap_append

@[simp] theorem outputBits_append (ps qs : List PortRead) :
    outputBits (ps ++ qs) = outputBits ps ++ outputBits qs := List.flatMap_append

@[simp] theorem dffPairs_append (cs ds : List CellRead) :
    dffPairs (cs ++ ds) = dffPairs cs ++ dffPairs ds := List.filterMap_append

@[simp] theorem gateReads_append (cs ds : List CellRead) :
    gateReads (cs ++ ds) = gateReads cs ++ gateReads ds := List.filterMap_append

@[simp] theorem gateOuts_append (cs ds : List CellRead) :
    gateOuts (cs ++ ds) = gateOuts cs ++ gateOuts ds := by
  simp [gateOuts]

/-- The object under construction is what `ports` and `cells` amount to. -/
structure Holds (st : ParseState) (ports : List PortRead) (cells : List CellRead) : Prop where
  input : st.bc.inputVector = inputBits ports
  output : st.bc.outputVector = outputBits ports
  dffQ : st.bc.dffQVector = (dffPairs cells).map Prod.fst
  dffD : st.bc.dffDVector = (dffPairs cells).map Prod.snd
  gates : st.bc.gateVector = (gateReads cells).map GateRead.gate
  index : st.gateIndex = st.bc.gateVector.length + 1
  wiresNodup : st.bc.wireVector.Nodup
  wiresDriven : ∀ w ∈ st.bc.wireVector, w ∈ gateOuts cells
  outsKept : ∀ o ∈ gateOuts cells, o ∈ st.bc.wireVector ∨ o ∈ st.bc.outputVector

theorem holds_empty : Holds {} [] [] := by
  constructor <;> simp [inputBits, outputBits, dffPairs, gateReads, gateOuts]

/-! ### One round of the port loop -/

theorem readPort_holds {st st' : ParseState} {port : Json} {ports : List PortRead}
    {cells : List CellRead} (hs : Holds st ports cells) (h : readPort st port = .ok st') :
    ∃ read, portRead port = .ok read ∧ Holds st' (ports ++ [read]) cells := by
  simp only [readPort, bind_eq_ok] at h
  obtain ⟨dirJson, hdir, direction, hstr, hrest⟩ := h
  simp only [portRead, hdir, hstr, ok_bind]
  split at hrest
  · rename_i hin
    simp only [bind_eq_ok, pure_eq_ok] at hrest
    obtain ⟨bitsJson, hbits, bits, hvec, rfl⟩ := hrest
    refine ⟨.input (bits.map Json.toUint), ?_, ?_⟩
    · rw [if_pos hin, hbits, ok_bind, hvec]
      rfl
    · exact { hs with
        input := by simp [hs.input, inputBits]
        output := by simp [hs.output, outputBits] }
  · rename_i hnotin
    split at hrest
    · rename_i hout
      simp only [bind_eq_ok, pure_eq_ok] at hrest
      obtain ⟨bitsJson, hbits, bits, hvec, rfl⟩ := hrest
      refine ⟨.output (bits.map Json.toUint), ?_, ?_⟩
      · rw [if_neg hnotin, if_pos hout, hbits, ok_bind, hvec]
        rfl
      · exact { hs with
          input := by simp [hs.input, inputBits]
          output := by simp [hs.output, outputBits]
          outsKept := fun o ho => (hs.outsKept o ho).imp_right fun h => by simp [h] }
    · exact absurd hrest (by simp)

/-! ### One round of the cell loop -/

/-- What entering the output nets `outs` changes, and what it keeps. -/
structure Recorded (bc : ParsedBC) (outs : List Nat) (bc' : ParsedBC) : Prop where
  same : { bc' with wireVector := bc.wireVector, dependencyVector := bc.dependencyVector } = bc
  nodup : bc.wireVector.Nodup → bc'.wireVector.Nodup
  grows : ∀ w ∈ bc.wireVector, w ∈ bc'.wireVector
  new : ∀ w ∈ bc'.wireVector, w ∈ bc.wireVector ∨ (w ∈ outs ∧ w ∉ bc.outputVector)
  kept : ∀ o ∈ outs, o ∈ bc'.wireVector ∨ o ∈ bc.outputVector

namespace Recorded

variable {bc bc' bc'' : ParsedBC} {outs outs' : List Nat}

theorem input (h : Recorded bc outs bc') : bc'.inputVector = bc.inputVector := by
  rw [← h.same]

theorem output (h : Recorded bc outs bc') : bc'.outputVector = bc.outputVector := by
  rw [← h.same]

theorem dffQ (h : Recorded bc outs bc') : bc'.dffQVector = bc.dffQVector := by
  rw [← h.same]

theorem dffD (h : Recorded bc outs bc') : bc'.dffDVector = bc.dffDVector := by
  rw [← h.same]

theorem nil (bc : ParsedBC) : Recorded bc [] bc :=
  ⟨rfl, id, fun _ hw => hw, fun _ hw => Or.inl hw, by simp⟩

/-- Entering some outputs and then some more. -/
theorem trans (h : Recorded bc outs bc') (h' : Recorded bc' outs' bc'') :
    Recorded bc (outs ++ outs') bc'' := by
  refine ⟨?_, fun hnd => h'.nodup (h.nodup hnd), fun w hw => h'.grows w (h.grows w hw), ?_, ?_⟩
  · rw [← h.same, ← h'.same]
  · intro w hw
    rcases h'.new w hw with hw | ⟨hmem, hout⟩
    · exact (h.new w hw).imp_right fun ⟨hmem, hout⟩ => ⟨List.mem_append_left _ hmem, hout⟩
    · exact Or.inr ⟨List.mem_append_right _ hmem, h.output ▸ hout⟩
  · intro o ho
    rcases List.mem_append.mp ho with ho | ho
    · exact (h.kept o ho).imp_left (h'.grows o)
    · exact h.output ▸ h'.kept o ho

end Recorded

theorem recordOutput_recorded {bc bc' : ParsedBC} {gateIndex outputBit : Nat}
    (h : recordOutput bc gateIndex outputBit = .ok bc') : Recorded bc [outputBit] bc' := by
  simp only [recordOutput] at h
  generalize (if bc.dependencyVector.length ≤ outputBit then
    resize bc.dependencyVector ((outputBit + 1) % 2 ^ 32) 0 else bc.dependencyVector)
    = dependencies at h
  split at h
  · rw [Except.ok.injEq] at h
    subst h
    by_cases hfresh : outputBit ∉ bc.outputVector ∧ outputBit ∉ bc.wireVector
    · refine ⟨rfl, ?_, ?_, ?_, ?_⟩ <;> simp only [if_pos hfresh]
      · intro hnd
        exact List.nodup_append.mpr ⟨hnd, List.nodup_singleton _, by
          intro a ha b hb hab
          rw [List.mem_singleton.mp hb] at hab
          exact hfresh.2 (hab ▸ ha)⟩
      · intro w hw
        simp [hw]
      · intro w hw
        rcases List.mem_append.mp hw with hw | hw
        · exact Or.inl hw
        · exact Or.inr ⟨hw, List.mem_singleton.mp hw ▸ hfresh.1⟩
      · intro o ho
        exact Or.inl (List.mem_append_right _ ho)
    · refine ⟨rfl, ?_, ?_, ?_, ?_⟩ <;> simp only [if_neg hfresh]
      · exact id
      · exact fun w hw => hw
      · exact fun w hw => Or.inl hw
      · intro o ho
        rw [List.mem_singleton.mp ho]
        by_cases hout : outputBit ∈ bc.outputVector
        · exact Or.inr hout
        · exact Or.inl (by_contra fun hw => hfresh ⟨hout, hw⟩)
  · exact absurd h (by simp)

/-- Entering the outputs of a gate whose entry is appended to the gate vector. -/
theorem Holds.record {st : ParseState} {ports : List PortRead} {cells : List CellRead}
    (hs : Holds st ports cells) {read : GateRead} {bc' : ParsedBC}
    (hrec : Recorded st.bc read.outs bc') :
    Holds ⟨{ bc' with gateVector := st.bc.gateVector ++ [read.gate] }, st.gateIndex + 1⟩ ports
      (cells ++ [.gate read]) := by
  have houts : gateOuts (cells ++ [.gate read]) = gateOuts cells ++ read.outs := by
    simp [gateOuts, gateReads, CellRead.gate?]
  constructor
  · exact hrec.input.trans hs.input
  · exact hrec.output.trans hs.output
  · simpa [dffPairs] using hrec.dffQ.trans hs.dffQ
  · simpa [dffPairs] using hrec.dffD.trans hs.dffD
  · simp [hs.gates, gateReads, CellRead.gate?]
  · simp [hs.index]
  · exact hrec.nodup hs.wiresNodup
  · intro w hw
    rw [houts]
    rcases hrec.new w hw with hw | ⟨hw, -⟩
    · exact List.mem_append_left _ (hs.wiresDriven w hw)
    · exact List.mem_append_right _ hw
  · intro o ho
    show o ∈ bc'.wireVector ∨ o ∈ bc'.outputVector
    rw [hrec.output]
    rcases List.mem_append.mp (houts ▸ ho) with ho | ho
    · exact (hs.outsKept o ho).imp_left (hrec.grows o)
    · exact hrec.kept o ho

/-- The output nets of a gate, entered one after the other. -/
def recordOutputs (bc : ParsedBC) (gateIndex : Nat) (outs : List Nat) : Result ParsedBC :=
  outs.foldlM (fun bc outputBit => recordOutput bc gateIndex outputBit) bc

theorem recordOutputs_recorded {bc bc' : ParsedBC} {gateIndex : Nat} {outs : List Nat}
    (h : recordOutputs bc gateIndex outs = .ok bc') : Recorded bc outs bc' := by
  induction outs generalizing bc with
  | nil =>
      obtain rfl : bc = bc' := by simpa [recordOutputs] using h
      exact Recorded.nil bc
  | cons o outs ih =>
      simp only [recordOutputs, List.foldlM_cons, bind_eq_ok] at h
      obtain ⟨bc₁, hrec, h⟩ := h
      exact (recordOutput_recorded hrec).trans (ih h)

theorem readOperands_ok {useM12 : Bool} {cell : Json} {gateIndex : Nat}
    {bc bc' : ParsedBC} {gate gate' : GateStruct}
    (h : readOperands useM12 cell gateIndex bc gate = .ok (bc', gate')) :
    ∃ read, operandsRead useM12 cell gate = .ok read ∧ read.gate = gate' ∧
      ∃ outs, read.outs = gate.out0 :: outs ∧ recordOutputs bc gateIndex outs = .ok bc' := by
  unfold readOperands at h
  unfold operandsRead
  split at h
  · rename_i hnot
    simp only [pure_eq_ok, Prod.mk.injEq] at h
    obtain ⟨rfl, rfl⟩ := h
    exact ⟨_, by rw [if_pos hnot]; rfl, rfl, [], rfl, rfl⟩
  · rename_i hnot
    simp only [bind_eq_ok] at h
    obtain ⟨b, hb, h⟩ := h
    simp only [if_neg hnot, hb, ok_bind]
    split at h
    · rename_i hmux
      simp only [bind_eq_ok, pure_eq_ok, Prod.mk.injEq] at h
      obtain ⟨s, hs, rfl, rfl⟩ := h
      exact ⟨_, by rw [if_pos hmux, hs]; rfl, rfl, [], rfl, rfl⟩
    · rename_i hmux
      simp only [if_neg hmux]
      split at h
      · rename_i hfa
        simp only [bind_eq_ok] at h
        obtain ⟨x, hx, bc₁, hrec, isString, hstr, h⟩ := h
        have hall : recordOutputs bc gateIndex [x] = .ok bc₁ := by
          simp [recordOutputs, hrec]
        simp only [if_pos hfa, hx, hstr, ok_bind]
        split at h
        · rename_i hconst
          simp only [pure_eq_ok, Prod.mk.injEq] at h
          obtain ⟨rfl, rfl⟩ := h
          exact ⟨_, by rw [if_pos hconst]; rfl, rfl, [x], rfl, hall⟩
        · rename_i hconst
          simp only [bind_eq_ok, pure_eq_ok, Prod.mk.injEq] at h
          obtain ⟨c, hc, rfl, rfl⟩ := h
          exact ⟨_, by rw [if_neg hconst, hc]; rfl, rfl, [x], rfl, hall⟩
      · rename_i hfa
        simp only [if_neg hfa]
        split at h
        · rename_i hm12
          simp only [bind_eq_ok, pure_eq_ok, Prod.mk.injEq] at h
          obtain ⟨c, hc, rfl, rfl⟩ := h
          exact ⟨_, by rw [if_pos hm12, hc]; rfl, rfl, [], rfl, rfl⟩
        · rename_i hm12
          simp only [pure_eq_ok, Prod.mk.injEq] at h
          obtain ⟨rfl, rfl⟩ := h
          exact ⟨_, by rw [if_neg hm12]; rfl, rfl, [], rfl, rfl⟩

/-- What a round of the cell loop does with what it has read. -/
def CellRead.Entered (st : ParseState) : CellRead → ParseState → Prop
  | .dff q d, st' => st' = { st with
      bc.dffQVector := st.bc.dffQVector ++ [q]
      bc.dffDVector := st.bc.dffDVector ++ [d] }
  | .gate read, st' => ∃ bc', recordOutputs st.bc st.gateIndex read.outs = .ok bc' ∧
      st' = {
        bc := { bc' with
          gateVector := (if st.bc.gateVector.length < st.gateIndex then
              resize st.bc.gateVector st.gateIndex {}
            else st.bc.gateVector).set (st.gateIndex - 1) read.gate }
        gateIndex := st.gateIndex + 1 }

theorem readCell_ok {useM12 : Bool} {st st' : ParseState} {cell : Json}
    (h : readCell useM12 st cell = .ok st') :
    ∃ read, cellRead useM12 cell = .ok read ∧ read.Entered st st' := by
  simp only [readCell, bind_eq_ok] at h
  obtain ⟨typeJson, htype, type, hstr, gateName, hname, h⟩ := h
  simp only [cellRead, bind_eq_ok, htype, hstr, hname, Except.ok.injEq, exists_eq_left']
  split at h
  · rename_i hdff
    simp only [bind_eq_ok, pure_eq_ok] at h
    obtain ⟨q, hq, d, hd, rfl⟩ := h
    exact ⟨.dff q d, by simp [hdff, hq, hd], rfl⟩
  · rename_i hdff
    simp only [readGate, bind_eq_ok, pure_eq_ok] at h
    obtain ⟨y, hy, bc₁, hrec, a, ha, ⟨bc₂, gate⟩, hops, rfl⟩ := h
    obtain ⟨read, hread, rfl, outs, houts, hall⟩ := readOperands_ok hops
    refine ⟨.gate read, by simp [hdff, hy, ha, hread], bc₂, ?_, rfl⟩
    simp only [recordOutputs, houts, List.foldlM_cons, hrec, ok_bind]
    exact hall

/-- The entry of the gate vector that a round writes is the next one. -/
theorem gates_set {st : ParseState} {ports : List PortRead} {cells : List CellRead}
    (hs : Holds st ports cells) (gate : GateStruct) :
    (if st.bc.gateVector.length < st.gateIndex then resize st.bc.gateVector st.gateIndex {}
      else st.bc.gateVector).set (st.gateIndex - 1) gate = st.bc.gateVector ++ [gate] := by
  rw [if_pos (by rw [hs.index]; exact Nat.lt_succ_self _), hs.index, resize,
    List.take_of_length_le (Nat.le_succ _)]
  simp

theorem readCell_holds {useM12 : Bool} {st st' : ParseState} {cell : Json}
    {ports : List PortRead} {cells : List CellRead} (hs : Holds st ports cells)
    (h : readCell useM12 st cell = .ok st') :
    ∃ read, cellRead useM12 cell = .ok read ∧ Holds st' ports (cells ++ [read]) := by
  obtain ⟨read, hread, hentered⟩ := readCell_ok h
  refine ⟨read, hread, ?_⟩
  cases read with
  | dff q d =>
      obtain rfl := hentered
      exact { hs with
        dffQ := by simp [hs.dffQ, dffPairs]
        dffD := by simp [hs.dffD, dffPairs]
        gates := by simp [hs.gates, gateReads, CellRead.gate?]
        wiresDriven := fun w hw => by
          rw [gateOuts_append]
          exact List.mem_append_left _ (hs.wiresDriven w hw)
        outsKept := fun o ho => by
          refine hs.outsKept o ?_
          simpa [gateOuts, gateReads, CellRead.gate?] using ho }
  | gate read =>
      obtain ⟨bc', hrec, rfl⟩ := hentered
      simp only [gates_set hs]
      exact hs.record (recordOutputs_recorded hrec)

/-! ### The whole document -/

/-- What is read off a module. -/
def moduleRead (useM12 : Bool) (module : Json) :
    Result (List PortRead × List CellRead) := do
  let ports ← (← module.at "ports").items.mapM portRead
  let cells ← (← module.at "cells").items.mapM (cellRead useM12)
  return (ports, cells)

/-- What is read off a document. -/
def docRead (useM12 : Bool) (doc : Json) : Result (List (List PortRead × List CellRead)) := do
  (← doc.at "modules").items.mapM (moduleRead useM12)

theorem readModule_holds {useM12 : Bool} {st st' : ParseState} {module : Json}
    {ports : List PortRead} {cells : List CellRead} (hs : Holds st ports cells)
    (h : readModule useM12 st module = .ok st') :
    ∃ read, moduleRead useM12 module = .ok read ∧
      Holds st' (ports ++ read.1) (cells ++ read.2) := by
  simp only [readModule, bind_eq_ok] at h
  obtain ⟨portsJson, hports, st₁, hloop₁, cellsJson, hcells, hloop₂⟩ := h
  obtain ⟨ps, hps, hs₁⟩ := foldlM_collect (P := fun st ps => Holds st ps cells)
    (fun _ _ _ _ hs h => readPort_holds hs h) hs hloop₁
  obtain ⟨cs, hcs, hs₂⟩ := foldlM_collect (P := fun st cs => Holds st (ports ++ ps) cs)
    (fun _ _ _ _ hs h => readCell_holds hs h) hs₁ hloop₂
  exact ⟨(ps, cs), by simp [moduleRead, hports, hcells, hps, hcs], hs₂⟩

/-- A parsed netlist is what `ports` and `cells` amount to, with the ids sorted. -/
structure Parsed (bc : ParsedBC) (ports : List PortRead) (cells : List CellRead) : Prop where
  input : bc.inputVector = sort (inputBits ports)
  output : bc.outputVector = sort (outputBits ports)
  dffQ : bc.dffQVector = (dffPairs cells).map Prod.fst
  dffD : bc.dffDVector = (dffPairs cells).map Prod.snd
  gates : bc.gateVector = (gateReads cells).map GateRead.gate
  wiresNodup : bc.wireVector.Nodup
  wiresDriven : ∀ w ∈ bc.wireVector, w ∈ gateOuts cells
  outsKept : ∀ o ∈ gateOuts cells, o ∈ bc.wireVector ∨ o ∈ bc.outputVector

theorem sort_perm (ids : List Nat) : (sort ids).Perm ids := List.perm_insertionSort _ ids

@[simp] theorem mem_sort {ids : List Nat} {id : Nat} : id ∈ sort ids ↔ id ∈ ids :=
  (sort_perm ids).mem_iff

theorem sort_pairwise (ids : List Nat) : (sort ids).Pairwise (· ≤ ·) :=
  List.pairwise_insertionSort _ ids

/-- **A successful parse is determined by what was read**: the ports and cells of all
modules, in the order the library visits them. -/
theorem parsedBC_reads {useM12 : Bool} {doc : Json} {bc : ParsedBC}
    (h : parsedBC useM12 doc = .ok bc) :
    ∃ reads, docRead useM12 doc = .ok reads ∧
      Parsed bc (reads.flatMap Prod.fst) (reads.flatMap Prod.snd) := by
  simp only [parsedBC, bind_eq_ok, pure_eq_ok] at h
  obtain ⟨modules, hmods, st, hloop, rfl⟩ := h
  obtain ⟨reads, hreads, hs⟩ := foldlM_collect
    (P := fun st reads => Holds st (reads.flatMap Prod.fst) (reads.flatMap Prod.snd))
    (fun st module st' reads hs h => by
      obtain ⟨read, hread, hs'⟩ := readModule_holds hs h
      exact ⟨read, hread, by simpa using hs'⟩)
    (r := []) (by simpa using holds_empty) hloop
  rw [List.nil_append] at hs
  refine ⟨reads, by simp [docRead, hmods, hreads], ?_⟩
  exact {
    input := by rw [← hs.input]
    output := by rw [← hs.output]
    dffQ := hs.dffQ
    dffD := hs.dffD
    gates := hs.gates
    wiresNodup := (sort_perm _).nodup_iff.mpr hs.wiresNodup
    wiresDriven := fun w hw => hs.wiresDriven w (mem_sort.mp hw)
    outsKept := fun o ho =>
      (hs.outsKept o ho).imp (fun h => mem_sort.mpr h) (fun h => mem_sort.mpr h) }

/-! ### One module -/

theorem readPort_wires {st st' : ParseState} {port : Json} (h : readPort st port = .ok st') :
    st'.bc.wireVector = st.bc.wireVector := by
  simp only [readPort, bind_eq_ok] at h
  obtain ⟨_, _, direction, _, h⟩ := h
  split at h
  · simp only [bind_eq_ok, pure_eq_ok] at h
    obtain ⟨_, _, _, _, rfl⟩ := h
    rfl
  · split at h
    · simp only [bind_eq_ok, pure_eq_ok] at h
      obtain ⟨_, _, _, _, rfl⟩ := h
      rfl
    · exact absurd h (by simp)

/-- No wire is an output. -/
def WiresInner (bc : ParsedBC) : Prop := ∀ w ∈ bc.wireVector, w ∉ bc.outputVector

theorem Recorded.inner {bc bc' : ParsedBC} {outs : List Nat} (h : Recorded bc outs bc')
    (hin : WiresInner bc) : WiresInner bc' := by
  intro w hw
  rw [h.output]
  rcases h.new w hw with hw | ⟨-, hout⟩
  · exact hin w hw
  · exact hout

theorem readCell_inner {useM12 : Bool} {st st' : ParseState} {cell : Json}
    (hin : WiresInner st.bc) (h : readCell useM12 st cell = .ok st') : WiresInner st'.bc := by
  obtain ⟨read, -, hentered⟩ := readCell_ok h
  cases read with
  | dff q d =>
      obtain rfl := hentered
      exact hin
  | gate read =>
      obtain ⟨bc', hrec, rfl⟩ := hentered
      exact (recordOutputs_recorded hrec).inner hin

/-- **Of a single module no wire is an output**: its ports are read before its cells. -/
theorem wire_not_output {useM12 : Bool} {doc module : Json} {bc : ParsedBC}
    (hone : SingleModule doc module) (h : parsedBC useM12 doc = .ok bc) :
    ∀ w ∈ bc.wireVector, w ∉ bc.outputVector := by
  obtain ⟨modules, hmods, hitems⟩ := hone
  simp only [parsedBC, hmods, hitems, ok_bind, bind_eq_ok, pure_eq_ok, List.foldlM_cons,
    List.foldlM_nil, readModule] at h
  obtain ⟨st, ⟨st', ⟨_, _, st₁, hports, _, _, hcells⟩, rfl⟩, rfl⟩ := h
  have hnone : st₁.bc.wireVector = [] :=
    foldlM_inv (P := fun st => st.bc.wireVector = [])
      (fun s a s' hs _ hstep => (readPort_wires hstep).trans hs) rfl hports
  have hinner : WiresInner st'.bc :=
    foldlM_inv (P := fun st => WiresInner st.bc)
      (fun s a s' hs _ hstep => readCell_inner hs hstep)
      (fun w hw => absurd hw (by simp [hnone])) hcells
  intro w hw hout
  exact hinner w (mem_sort.mp hw) (mem_sort.mp hout)

/-- The gates of a module are read off its cells. -/
theorem moduleRead_gate {useM12 : Bool} {module : Json} {ports : List PortRead}
    {cells : List CellRead} (h : moduleRead useM12 module = .ok (ports, cells)) {read : GateRead}
    (hread : read ∈ gateReads cells) : ∃ cell, cellRead useM12 cell = .ok (.gate read) := by
  simp only [moduleRead, bind_eq_ok, pure_eq_ok, Prod.mk.injEq] at h
  obtain ⟨_, _, _, _, _, _, _, hloop, -, rfl⟩ := h
  obtain ⟨c, hc, hgate⟩ := List.mem_filterMap.mp hread
  obtain ⟨cell, -, hcell⟩ := mapM_mem_result hloop hc
  cases c with
  | dff q d => exact absurd hgate (by simp [CellRead.gate?])
  | gate read' =>
      obtain rfl : read' = read := Option.some.inj hgate
      exact ⟨cell, hcell⟩

theorem moduleRead_out0 {useM12 : Bool} {module : Json} {ports : List PortRead}
    {cells : List CellRead} (h : moduleRead useM12 module = .ok (ports, cells)) {read : GateRead}
    (hread : read ∈ gateReads cells) : read.gate.out0 ∈ read.outs := by
  obtain ⟨cell, hcell⟩ := moduleRead_gate h hread
  simp only [cellRead, bind_eq_ok] at hcell
  obtain ⟨_, _, _, _, _, _, hcell⟩ := hcell
  split at hcell
  · simp only [bind_eq_ok, pure_eq_ok] at hcell
    obtain ⟨q, -, d, -, hcell⟩ := hcell
    exact absurd hcell (by simp)
  · simp only [bind_eq_ok, pure_eq_ok, CellRead.gate.injEq] at hcell
    obtain ⟨y, -, a, -, read', hops, rfl⟩ := hcell
    have houts := operandsRead_outputs hops
    exact houts.out0 ▸ houts.mem

/-- What was read off a document with one module. -/
theorem docRead_single {useM12 : Bool} {doc module : Json}
    {reads : List (List PortRead × List CellRead)} (hone : SingleModule doc module)
    (h : docRead useM12 doc = .ok reads) :
    ∃ read, moduleRead useM12 module = .ok read ∧ reads = [read] := by
  obtain ⟨modules, hmods, hitems⟩ := hone
  simp only [docRead, hmods, hitems, ok_bind, mapM_cons_eq_ok] at h
  obtain ⟨read, rest, hread, hrest, rfl⟩ := h
  simp only [List.mapM_nil, pure_eq_ok] at hrest
  exact ⟨read, hread, by rw [← hrest]⟩

/-- **The parse of a document with one module is what was read off the module.** -/
theorem parsed_single {useM12 : Bool} {doc module : Json} {bc : ParsedBC}
    {ports : List PortRead} {cells : List CellRead} (hone : SingleModule doc module)
    (hparse : parsedBC useM12 doc = .ok bc)
    (hread : moduleRead useM12 module = .ok (ports, cells)) : Parsed bc ports cells := by
  obtain ⟨reads, hdoc, hp⟩ := parsedBC_reads hparse
  obtain ⟨read, hread', rfl⟩ := docRead_single hone hdoc
  rw [hread, Except.ok.injEq] at hread'
  subst hread'
  simpa using hp

end YosysJSONparser

end Tangor
