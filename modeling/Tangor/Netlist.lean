/-
Netlists and what they mean.

This is the side of the development the source does not contain: what a Yosys
netlist *is*, apart from the JSON it is written in and from the order a parser meets
its cells in.  A netlist has ports and cells; a cell is one of the combinational
gates with its operands by pin, or a `$_SDFF_PP0_` flip-flop.

`Netlist.Value` is the reference semantics.  A net has the value of the input, the
register or the gate that drives it, and a gate's value is its Yosys meaning on the
values of its pins.  No order of the cells appears in it.

`Represents` ties a document to a netlist by the accesses the parser makes, so a
document may hold any further members.  `Netlist.toJson` is one such document.
-/
import Tangor.YosysJsonParser

namespace Tangor

open YosysJSONparser

/-- The input pins of the combinational cells. -/
inductive Pin where
  | A | B | S
deriving DecidableEq, Repr

def Pin.name : Pin → String
  | .A => "A"
  | .B => "B"
  | .S => "S"

/-- The combinational cells the builder has a codelet for. -/
inductive GateType where
  | NOT | NAND | NOR | XNOR | AND | OR | XOR | ANDNOT | ORNOT | MUX | NMUX
deriving DecidableEq, Repr

namespace GateType

/-- The cell type in the document. -/
def typeName : GateType → String
  | .NOT => "$_NOT_"
  | .NAND => "$_NAND_"
  | .NOR => "$_NOR_"
  | .XNOR => "$_XNOR_"
  | .AND => "$_AND_"
  | .OR => "$_OR_"
  | .XOR => "$_XOR_"
  | .ANDNOT => "$_ANDNOT_"
  | .ORNOT => "$_ORNOT_"
  | .MUX => "$_MUX_"
  | .NMUX => "$_NMUX_"

/-- The pins the type has. -/
def pins : GateType → List Pin
  | .NOT => [.A]
  | .MUX | .NMUX => [.A, .B, .S]
  | _ => [.A, .B]

/-- The Yosys meaning of the type. -/
def eval (t : GateType) (v : Pin → Bool) : Bool :=
  match t with
  | .NOT => !v .A
  | .NAND => !(v .A && v .B)
  | .NOR => !(v .A || v .B)
  | .XNOR => !(v .A ^^ v .B)
  | .AND => v .A && v .B
  | .OR => v .A || v .B
  | .XOR => v .A ^^ v .B
  | .ANDNOT => v .A && !v .B
  | .ORNOT => v .A || !v .B
  | .MUX => if v .S then v .B else v .A
  | .NMUX => !(if v .S then v .B else v .A)

/-- A gate's value depends on the pins its type has, and on no others. -/
theorem eval_congr (t : GateType) {v w : Pin → Bool} (h : ∀ p ∈ t.pins, v p = w p) :
    t.eval v = t.eval w := by
  have hA : v .A = w .A := h .A (by cases t <;> simp [pins])
  cases t with
  | NOT => simp [eval, hA]
  | NAND | NOR | XNOR | AND | OR | XOR | ANDNOT | ORNOT =>
      have hB : v .B = w .B := h .B (by simp [pins])
      simp [eval, hA, hB]
  | MUX | NMUX =>
      have hB : v .B = w .B := h .B (by simp [pins])
      have hS : v .S = w .S := h .S (by simp [pins])
      simp [eval, hA, hB, hS]

end GateType

/-- A combinational cell: the nets of its pins, and the net it drives. -/
structure Gate where
  type : GateType
  conn : Pin → Nat
  y : Nat

/-- The nets a gate reads. -/
def Gate.operands (g : Gate) : List Nat := g.type.pins.map g.conn

/-- One cell: a gate or a flip-flop. -/
inductive Cell where
  | gate (g : Gate)
  | sdff (d q : Nat)

inductive Direction where
  | input | output
deriving DecidableEq, Repr

def Direction.name : Direction → String
  | .input => "input"
  | .output => "output"

/-- A port and its nets, least significant first. -/
structure Port where
  direction : Direction
  bits : List Nat
deriving DecidableEq, Repr

/-- A module: its ports and cells with their names, in the order they are declared. -/
structure Netlist where
  ports : List (String × Port)
  cells : List (String × Cell)
  portNames : (ports.map Prod.fst).Nodup := by decide
  cellNames : (cells.map Prod.fst).Nodup := by decide

/-! ### The nets of a netlist -/

def Port.bitsOf (d : Direction) (p : Port) : List Nat := if p.direction = d then p.bits else []

def Cell.gate? : Cell → Option Gate
  | .gate g => some g
  | .sdff _ _ => none

/-- The net a flip-flop drives. -/
def Cell.register? : Cell → Option Nat
  | .gate _ => none
  | .sdff _ q => some q

namespace Netlist

/-- The bits of all ports of a direction, in declaration order. -/
def bitsOf (n : Netlist) (d : Direction) : List Nat := n.ports.flatMap fun np => np.2.bitsOf d

def inputBits (n : Netlist) : List Nat := n.bitsOf .input

def outputBits (n : Netlist) : List Nat := n.bitsOf .output

def gates (n : Netlist) : List Gate := n.cells.filterMap fun nc => nc.2.gate?

def gateBits (n : Netlist) : List Nat := n.gates.map Gate.y

def registerBits (n : Netlist) : List Nat := n.cells.filterMap fun nc => nc.2.register?

/-- Every net is driven once: by an input bit, a flip-flop or a gate. -/
def DrivenOnce (n : Netlist) : Prop := (n.inputBits ++ n.registerBits ++ n.gateBits).Nodup

/-- Every net a gate reads is driven. -/
def OperandsDriven (n : Netlist) : Prop :=
  ∀ g ∈ n.gates, ∀ i ∈ g.operands, i ∈ n.inputBits ++ n.registerBits ++ n.gateBits

/-- The netlist has no flip-flop. -/
def Combinational (n : Netlist) : Prop := n.registerBits = []

/-- Some gate reads the net `i` and drives the net `y`. -/
def Feeds (n : Netlist) (i y : Nat) : Prop :=
  ∃ g ∈ n.gates, i ∈ g.operands ∧ g.y = y

/-- No net depends on itself through gates. -/
def Acyclic (n : Netlist) : Prop := ∀ y, ¬ Relation.TransGen n.Feeds y y

/-! ### The reference semantics -/

/-- The value of a net, for the values `x` of the input nets; registers hold 0. -/
inductive Value (n : Netlist) (x : Nat → Bool) : Nat → Bool → Prop
  | input {i : Nat} (hi : i ∈ n.inputBits) : Value n x i (x i)
  | register {q : Nat} (hq : q ∈ n.registerBits) : Value n x q false
  | gate {g : Gate} (hg : g ∈ n.gates) (v : Pin → Bool)
      (hpins : ∀ p ∈ g.type.pins, Value n x (g.conn p) (v p)) : Value n x g.y (g.type.eval v)

theorem mem_gates {n : Netlist} {name : String} {g : Gate} (h : (name, Cell.gate g) ∈ n.cells) :
    g ∈ n.gates := List.mem_filterMap.mpr ⟨_, h, rfl⟩

theorem mem_gateBits {n : Netlist} {g : Gate} (h : g ∈ n.gates) : g.y ∈ n.gateBits :=
  List.mem_map_of_mem h

/-- Two gates that drive one net are one gate. -/
theorem DrivenOnce.gate_unique {n : Netlist} (h : n.DrivenOnce) {g g' : Gate} (hg : g ∈ n.gates)
    (hg' : g' ∈ n.gates) (hy : g.y = g'.y) : g = g' :=
  List.inj_on_of_nodup_map (List.nodup_append.mp h).2.1 hg hg' hy

/-- **The reference semantics gives a net one value.** -/
theorem Value.unique {n : Netlist} (honce : n.DrivenOnce) {x : Nat → Bool} {i : Nat} {a b : Bool}
    (ha : n.Value x i a) (hb : n.Value x i b) : a = b := by
  have hcross := (List.nodup_append.mp honce).2.2
  have hregs := (List.nodup_append.mp (List.nodup_append.mp honce).1).2.2
  induction ha generalizing b with
  | input hi =>
      cases hb with
      | input _ => rfl
      | register hq => exact absurd rfl (hregs _ hi _ hq)
      | gate hg v hpins =>
          exact absurd rfl (hcross _ (List.mem_append_left _ hi) _ (mem_gateBits hg))
  | register hq =>
      cases hb with
      | input hi => exact absurd rfl (hregs _ hi _ hq)
      | register _ => rfl
      | gate hg v hpins =>
          exact absurd rfl (hcross _ (List.mem_append_right _ hq) _ (mem_gateBits hg))
  | @gate g hg v hpins ih =>
      generalize hy : g.y = i at hb
      cases hb with
      | input hi =>
          exact absurd hy.symm (hcross _ (List.mem_append_left _ hi) _ (mem_gateBits hg))
      | register hq =>
          exact absurd hy.symm (hcross _ (List.mem_append_right _ hq) _ (mem_gateBits hg))
      | @gate g' hg' w hpins' =>
          obtain rfl := honce.gate_unique hg hg' hy
          exact g.type.eval_congr fun p hp => ih p hp (hpins' p hp)

end Netlist

/-! ### Documents -/

/-- The document has one module. -/
def SingleModule (doc module : Json) : Prop :=
  ∃ modules, doc.at "modules" = .ok modules ∧ modules.items = [module]

/-- `j` is read as the port `p`. -/
structure PortJson (p : Port) (j : Json) : Prop where
  direction : j.at "direction" = .ok (.str p.direction.name)
  bits : ∃ bits ids, j.at "bits" = .ok bits ∧ bits.getIntVector = .ok ids ∧
    ids.map Json.toUint = p.bits

/-- `j` is read as the cell `c`. -/
def CellJson (c : Cell) (j : Json) : Prop :=
  match c with
  | .gate g => j.at "type" = .ok (.str g.type.typeName) ∧ pin j "Y" = .ok g.y ∧
      ∀ p ∈ g.type.pins, pin j p.name = .ok (g.conn p)
  | .sdff d q => j.at "type" = .ok (.str "$_SDFF_PP0_") ∧ pin j "D" = .ok d ∧ pin j "Q" = .ok q

/-- The document `doc` is read as the netlist `n`, whose module is `module`. -/
structure Represents (doc module : Json) (n : Netlist) : Prop where
  single : SingleModule doc module
  ports : ∃ members, module.at "ports" = .ok (.obj members) ∧
    List.Forall₂ (fun kv np => kv.1 = np.1 ∧ PortJson np.2 kv.2) members n.ports
  cells : ∃ members, module.at "cells" = .ok (.obj members) ∧
    List.Forall₂ (fun kv nc => kv.1 = nc.1 ∧ CellJson nc.2 kv.2) members n.cells

/-- A connection to a single net. -/
def connJson (net : Nat) : Json := .arr [.int net]

def Port.toJson (p : Port) : Json :=
  .obj [("direction", .str p.direction.name), ("bits", .arr (p.bits.map fun b : Nat => .int b))]

def Cell.toJson : Cell → Json
  | .gate g => .obj [("type", .str g.type.typeName),
      ("connections", .obj (g.type.pins.map (fun p => (p.name, connJson (g.conn p))) ++
        [("Y", connJson g.y)]))]
  | .sdff d q => .obj [("type", .str "$_SDFF_PP0_"),
      ("connections", .obj [("D", connJson d), ("Q", connJson q)])]

def Netlist.moduleJson (n : Netlist) : Json :=
  .obj [("ports", .obj (n.ports.map fun np => (np.1, np.2.toJson))),
    ("cells", .obj (n.cells.map fun nc => (nc.1, nc.2.toJson)))]

/-- A document of the netlist, with no more in it than the parser reads. -/
def Netlist.toJson (n : Netlist) : Json := .obj [("modules", .obj [("top", n.moduleJson)])]

/-- Net ids are ones a 32-bit unsigned integer holds. -/
def Netlist.Fits (n : Netlist) : Prop :=
  (∀ np ∈ n.ports, ∀ b ∈ np.2.bits, b < 2 ^ 32) ∧
  ∀ nc ∈ n.cells, match nc.2 with
    | .gate g => g.y < 2 ^ 32 ∧ ∀ p ∈ g.type.pins, g.conn p < 2 ^ 32
    | .sdff d q => d < 2 ^ 32 ∧ q < 2 ^ 32

end Tangor
