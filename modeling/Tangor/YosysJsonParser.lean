/-
The netlist parser, `src/yosys-json-parser.cpp`.

`ParsedBC::ParsedBC` walks the modules of a document, and of each module first the
ports and then the cells.  Ports fill the input and the output vector; a flip-flop
adds one entry to each of the two DFF vectors; every other cell becomes the next
entry of the gate vector, and its output nets are entered into the wire and the
dependency vectors as it is read.

The order of the accesses is the source's, because it decides which fault a bad
document runs into.  The build flag `USE_M12` is the parameter `useM12`.
-/
import Tangor.Json

namespace Tangor

namespace YosysJSONparser

/-- Holding information of each gate: its name and the nets of its pins. -/
structure GateStruct where
  name : String := ""
  in0 : Nat := 0
  in1 : Nat := 0
  in2 : Nat := 0
  out0 : Nat := 0
  out1 : Nat := 0
  out2 : Nat := 0
deriving DecidableEq, Repr

/-- What the constructor fills in. -/
structure ParsedBC where
  inputVector : List Nat := []
  outputVector : List Nat := []
  dffQVector : List Nat := []
  dffDVector : List Nat := []
  wireVector : List Nat := []
  gateVector : List GateStruct := []
  directPortPairVector : List (Nat × Nat) := []
  dependencyVector : List Nat := []
deriving DecidableEq, Repr

/-- The object under construction, and the local counter `gate_index`. -/
structure ParseState where
  bc : ParsedBC := {}
  gateIndex : Nat := 1

/-- `vector::resize`. -/
def resize {α : Type*} (xs : List α) (size : Nat) (fill : α) : List α :=
  xs.take size ++ List.replicate (size - xs.length) fill

/-- One port of a module. -/
def readPort (st : ParseState) (port : Json) : Result ParseState := do
  let direction ← (← port.at "direction").getString
  if direction = "input" then
    let bits ← (← port.at "bits").getIntVector
    return { st with bc.inputVector := st.bc.inputVector ++ bits.map Json.toUint }
  else if direction = "output" then
    let bits ← (← port.at "bits").getIntVector
    return { st with bc.outputVector := st.bc.outputVector ++ bits.map Json.toUint }
  else
    .error (.thrown "Port Definition Error")

/-- The gate name of a cell type: `$fa` is `fa`, of any other type the first two
characters and the last one are cut off. -/
def gateNameOf (type : String) : Result String :=
  if type = "$fa" then .ok "fa"
  else if type.length < 3 then .error (.undefined "erase or pop_back past the end of a string")
  else
    let gateName := String.ofList (type.toList.drop 2).dropLast
    -- Yosys's ANDNOT and ORNOT are TFHE's ANDYN and ORYN.
    if gateName = "ANDNOT" then .ok "ANDYN"
    else if gateName = "ORNOT" then .ok "ORYN"
    else .ok gateName

/-- The first net a connection of a cell names. -/
def pin (cell : Json) (name : String) : Result Nat := do
  (← (← (← cell.at "connections").at name).index 0).getUint

/-- The first bit of a connection is a constant, written as a string. -/
def pinIsString (cell : Json) (name : String) : Result Bool := do
  return (← (← (← cell.at "connections").at name).index 0).isString

/-- A gate output is entered into the wires, unless it is an output or already one of
them, and into the dependencies.  `output_bit + 1` is computed in 32 bits. -/
def recordOutput (bc : ParsedBC) (gateIndex outputBit : Nat) : Result ParsedBC :=
  let wires :=
    if outputBit ∉ bc.outputVector ∧ outputBit ∉ bc.wireVector then
      bc.wireVector ++ [outputBit]
    else bc.wireVector
  let dependencies :=
    if bc.dependencyVector.length ≤ outputBit then
      resize bc.dependencyVector ((outputBit + 1) % 2 ^ 32) 0
    else bc.dependencyVector
  if outputBit < dependencies.length then
    .ok { bc with
      wireVector := wires
      dependencyVector := dependencies.set outputBit gateIndex }
  else .error (.undefined "write past the end of dependency_vector")

/-- The operands of a gate past the first, and its name: a `$fa` also has the output
`X`, and is a half adder when its carry is a constant. -/
def readOperands (useM12 : Bool) (cell : Json) (gateIndex : Nat) (bc : ParsedBC)
    (gate : GateStruct) : Result (ParsedBC × GateStruct) := do
  if gate.name = "NOT" then
    return (bc, gate)
  let gate := { gate with in1 := ← pin cell "B" }
  if gate.name = "MUX" ∨ gate.name = "NMUX" then
    return (bc, { gate with in2 := ← pin cell "S" })
  else if gate.name = "fa" then
    let outputBit ← pin cell "X"
    let bc ← recordOutput bc gateIndex outputBit
    let gate := { gate with out1 := outputBit }
    if ← pinIsString cell "C" then
      return (bc, { gate with name := "ha" })
    else
      return (bc, { gate with in2 := ← pin cell "C" })
  else if useM12 ∧ (gate.name = "AOI3" ∨ gate.name = "OAI3") then
    return (bc, { gate with in2 := ← pin cell "C" })
  else
    return (bc, gate)

/-- A cell that is not a flip-flop. -/
def readGate (useM12 : Bool) (st : ParseState) (cell : Json) (gateName : String) :
    Result ParseState := do
  let gates :=
    if st.bc.gateVector.length < st.gateIndex then resize st.bc.gateVector st.gateIndex {}
    else st.bc.gateVector
  let outputBit ← pin cell "Y"
  let bc ← recordOutput st.bc st.gateIndex outputBit
  let in0 ← pin cell "A"
  let (bc, gate) ← readOperands useM12 cell st.gateIndex bc
    { name := gateName, in0 := in0, out0 := outputBit }
  return {
    bc := { bc with gateVector := gates.set (st.gateIndex - 1) gate }
    gateIndex := st.gateIndex + 1 }

/-- One cell of a module. -/
def readCell (useM12 : Bool) (st : ParseState) (cell : Json) : Result ParseState := do
  let gateName ← gateNameOf (← (← cell.at "type").getString)
  if gateName = "SDFF_PP0" then
    let q ← pin cell "Q"
    let d ← pin cell "D"
    return { st with
      bc.dffQVector := st.bc.dffQVector ++ [q]
      bc.dffDVector := st.bc.dffDVector ++ [d] }
  else
    readGate useM12 st cell gateName

/-- One module: its ports, then its cells. -/
def readModule (useM12 : Bool) (st : ParseState) (module : Json) : Result ParseState := do
  let st ← (← module.at "ports").items.foldlM readPort st
  (← module.at "cells").items.foldlM (readCell useM12) st

/-- If DFF's Q port is connected to output, needs copy at last. -/
def directPortPairs (bc : ParsedBC) : List (Nat × Nat) :=
  bc.dffQVector.filterMap fun q => (bc.outputVector.find? (· == q)).map fun o => (q, o)

/-- `std::sort` on a vector of ids. -/
def sort (ids : List Nat) : List Nat := ids.insertionSort (· ≤ ·)

/-- The constructor of `ParsedBC`, on the document its text parses to. -/
def parsedBC (useM12 : Bool) (doc : Json) : Result ParsedBC := do
  let st ← (← doc.at "modules").items.foldlM (readModule useM12) {}
  return { st.bc with
    directPortPairVector := directPortPairs st.bc
    inputVector := sort st.bc.inputVector
    outputVector := sort st.bc.outputVector
    wireVector := sort st.bc.wireVector }

end YosysJSONparser

end Tangor
