/-
The task graph builder, `src/starpu_build_graph.cpp`.

Ciphertexts live in five vectors, one for each class of nets, and every element is
registered with StarPU under its own handle; `Slot` names an element and its handle.
`searchPointer` finds the slot of a net, and `starpuBuildGraph` walks the gate
vector and submits at most one task a gate.

An iterator pair taken from two vectors delimits no range.  `findAcross` is that
search: it is harmless only while both vectors never held an element, because then
both iterators are null.
-/
import Tangor.YosysJsonParser

namespace Tangor

open YosysJSONparser

/-- An element of one of the five ciphertext vectors, and the handle it has. -/
inductive Slot where
  | cipherin (i : Nat)
  | cipherout (i : Nat)
  | cipherdffq (i : Nat)
  | cipherdffd (i : Nat)
  | cipherwire (i : Nat)
deriving DecidableEq, Repr

/-- `std::find(first.begin(), last.end(), id)`, for two different vectors. -/
def findAcross (first last : List Nat) (_id : Nat) : Result (Option Nat) :=
  match first, last with
  | [], [] => .ok none
  | _, _ => .error (.undefined "search between the iterators of two vectors")

/-- The handle of the slot that holds net `id`. -/
def searchPointer (id : Nat) (bc : ParsedBC) (bitname : String) : Result Slot := do
  let outIterator := bc.outputVector.idxOf? id
  let inIterator := bc.inputVector.idxOf? id
  let dffdIterator ← findAcross bc.dffQVector bc.dffDVector id
  let dffqIterator := bc.dffQVector.idxOf? id
  let wireIterator := bc.wireVector.idxOf? id
  match inIterator, dffdIterator, dffqIterator, wireIterator, outIterator with
  | some i, _, _, _, _ => .ok (.cipherin i)
  | none, some i, _, _, _ => .ok (.cipherdffd i)
  | none, none, some i, _, _ => .ok (.cipherdffq i)
  | none, none, none, some i, _ => .ok (.cipherwire i)
  | none, none, none, none, some i => .ok (.cipherout i)
  -- A message is printed, and then an iterator that was never set is dereferenced.
  | none, none, none, none, none => .error (.undefined (bitname ++ " bit parse error"))

/-- The codelets of `src/wrappedcodelets.cpp`. -/
inductive Codelet where
  | clHomNAND | clHomNOR | clHomXNOR | clHomAND | clHomOR | clHomXOR
  | clHomANDNY | clHomANDYN | clHomORNY | clHomORYN | clHomNOT | clHomMUX | clHomNMUX
deriving DecidableEq, Repr

/-- A call of `starpu_task_insert`: one handle opened with `STARPU_W`, then the
handles opened with `STARPU_R`. -/
structure TaskInsert where
  codelet : Codelet
  target : Slot
  sources : List Slot
  priority : Nat
deriving DecidableEq, Repr

/-- What the builder does with one gate. -/
inductive Submission where
  | inserted (task : TaskInsert)
  | printed (lines : List String)
  | skipped
deriving DecidableEq, Repr

def in2out1gates : List String := ["NAND", "NOR", "XNOR", "AND", "OR", "XOR", "ANDYN", "ORYN"]

def in3out1gates (useM12 : Bool) : List String :=
  if useM12 then ["MUX", "NMUX", "AOI3", "OAI3"] else ["MUX", "NMUX"]

/-- One round of the submission loop. -/
def submitGate (useM12 : Bool) (bc : ParsedBC) (gate : GateStruct) : Result Submission := do
  if gate.name = "NOT" then
    let outcipher ← searchPointer gate.out0 bc "output"
    let inacipher ← searchPointer gate.in0 bc "in0"
    return .inserted ⟨.clHomNOT, outcipher, [inacipher], 0⟩
  else if gate.name ∈ in2out1gates then
    let outcipher ← searchPointer gate.out0 bc "output"
    let inacipher ← searchPointer gate.in0 bc "in0"
    let inbcipher ← searchPointer gate.in1 bc "in1"
    let insert (codelet : Codelet) : Submission :=
      .inserted ⟨codelet, outcipher, [inacipher, inbcipher], 1⟩
    if gate.name = "NAND" then return insert .clHomNAND
    else if gate.name = "NOR" then return insert .clHomNOR
    else if gate.name = "XNOR" then return insert .clHomXNOR
    else if gate.name = "AND" then return insert .clHomAND
    else if gate.name = "OR" then return insert .clHomOR
    else if gate.name = "XOR" then return insert .clHomXOR
    else if gate.name = "ANDYN" then return insert .clHomANDYN
    else if gate.name = "ORYN" then return insert .clHomORYN
    else return .printed ["GATE PARSE ERROR", gate.name]
  else if gate.name ∈ in3out1gates useM12 then
    let outcipher ← searchPointer gate.out0 bc "output"
    let inacipher ← searchPointer gate.in0 bc "in0"
    let inbcipher ← searchPointer gate.in1 bc "in1"
    let inscipher ← searchPointer gate.in2 bc "in2"
    if gate.name = "MUX" then
      return .inserted ⟨.clHomMUX, outcipher, [inscipher, inbcipher, inacipher], 0⟩
    else if gate.name = "NMUX" then
      return .inserted ⟨.clHomNMUX, outcipher, [inscipher, inbcipher, inacipher], 0⟩
    else
      -- The AOI3 and OAI3 branches are commented out.
      return .skipped
  else
    return .printed ["GATE PARSE ERROR!"]

/-- The submission loop over the gate vector. -/
def starpuBuildGraph (useM12 : Bool) (bc : ParsedBC) : Result (List Submission) :=
  bc.gateVector.mapM (submitGate useM12 bc)

/-- The task of a round, if it inserted one. -/
def Submission.task? : Submission → Option TaskInsert
  | .inserted task => some task
  | .printed _ => none
  | .skipped => none

/-- The tasks of a run, in the order of their submission. -/
def insertedTasks (submissions : List Submission) : List TaskInsert :=
  submissions.filterMap Submission.task?

/-- The ciphertext vectors when the first task is submitted: the client's file is
resized to the inputs, new elements are value-initialised, registers are set to 0. -/
def initialSlots {V : Type*} (file : List V) (valueInit homCONSTANTZERO : V) : Slot → V
  | .cipherin i => file.getD i valueInit
  | .cipherdffq _ => homCONSTANTZERO
  | .cipherout _ | .cipherdffd _ | .cipherwire _ => valueInit

end Tangor
