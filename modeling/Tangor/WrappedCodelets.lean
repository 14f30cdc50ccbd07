/-
The gate codelets, `src/wrappedcodelets.cpp`, and their FPGA path,
`include/hogewrapper.hpp`.

A two-input gate is one call of `HomGate`, which bootstraps the sign of a linear
combination of its operands; `WrappedGate.parameters` is the table of its template
arguments.  Built with `USE_HOGE`, worker 0 hands the gate to an FPGA kernel instead, with
the arguments encoded as indices, and a multiplexer becomes two runs of that kernel.

What TFHEpp and the kernel compute are parameters.  A TLWE of `lvl1param` is a vector of
`n + 1` words; `μ` is one eighth of the torus.  The StarPU buffers are pointers into a
memory, so two of them may be one.
-/
import Tangor.Torus

namespace Tangor

open Torus

/-! ### The two-input gates -/

/-- The two-input codelets. -/
inductive WrappedGate where
  | clHomNAND | clHomNOR | clHomXNOR | clHomAND | clHomOR | clHomXOR
  | clHomANDNY | clHomANDYN | clHomORNY | clHomORYN
deriving DecidableEq, Repr

namespace WrappedGate

/-- `casign`, `cbsign` and `offset` of `HomGateWrap`, the offset in multiples of `μ`. -/
def parameters : WrappedGate → Int × Int × Int
  | .clHomNAND => (-1, -1, 1)
  | .clHomNOR => (-1, -1, -1)
  | .clHomXNOR => (-2, -2, -2)
  | .clHomAND => (1, 1, -1)
  | .clHomOR => (1, 1, 1)
  | .clHomXOR => (2, 2, 2)
  | .clHomANDNY => (-1, 1, -1)
  | .clHomANDYN => (1, -1, -1)
  | .clHomORNY => (-1, 1, 1)
  | .clHomORYN => (1, -1, 1)

/-- The gate of the codelet, as a gate vector names it. -/
def name : WrappedGate → String
  | .clHomNAND => "NAND"
  | .clHomNOR => "NOR"
  | .clHomXNOR => "XNOR"
  | .clHomAND => "AND"
  | .clHomOR => "OR"
  | .clHomXOR => "XOR"
  | .clHomANDNY => "ANDNY"
  | .clHomANDYN => "ANDYN"
  | .clHomORNY => "ORNY"
  | .clHomORYN => "ORYN"

end WrappedGate

/-- One eighth of the torus, `2 ^ (w - 3)`. -/
def μ (w : Nat) : Int := 2 ^ (w - 3)

/-- `casign * x + cbsign * y + offset`. -/
def combination (parameters : Int × Int × Int) (μ x y : Int) : Int :=
  let (casign, cbsign, offset) := parameters
  casign * x + cbsign * y + offset * μ

/-! ### Buffers and wrappers -/

/-- `TFHEpp::TLWE<TFHEpp::lvl1param>`. -/
abbrev TLWE (w n : Nat) := Fin (n + 1) → BitVec w

/-- The kernel `HomGate` of the FPGA image: `scalea`, `scaleb` and `offset`, then the two
operands. -/
abbrev Kernel (w n : Nat) := Nat → Nat → Nat → TLWE w n → TLWE w n → TLWE w n

/-- The index `HomGateWrap` encodes a scale or an offset as. -/
def scaleIndex (value : Int) : Nat :=
  if value < 0 then if value = -2 then 3 else 2 else if value = 2 then 1 else 0

/-- The memory the StarPU buffers point into, the host arrays of `hogewrapper.cpp`, and
what the FPGA has: its copies of them and the arguments of the kernel. -/
structure Hoge (Pointer : Type) (w n : Nat) where
  memory : Pointer → TLWE w n
  buftlwea : TLWE w n
  buftlweb : TLWE w n
  bufres : TLWE w n
  bufferIna : TLWE w n
  bufferInb : TLWE w n
  bufferRes : TLWE w n
  scalea : Nat
  scaleb : Nat
  offset : Nat

namespace Hoge

variable {Pointer : Type} {w n : Nat}

/-- `enqueueTask`, which runs the kernel on what the FPGA has. -/
def enqueueTask (kernel : Kernel w n) (s : Hoge Pointer w n) : Hoge Pointer w n :=
  { s with bufferRes := kernel s.scalea s.scaleb s.offset s.bufferIna s.bufferInb }

variable [DecidableEq Pointer]

def store (s : Hoge Pointer w n) (p : Pointer) (c : TLWE w n) : Hoge Pointer w n :=
  { s with memory := Function.update s.memory p c }

@[simp] theorem store_self (s : Hoge Pointer w n) (p : Pointer) (c : TLWE w n) :
    (s.store p c).memory p = c := Function.update_self _ _ _

/-- `HOGEwrap<scaleaindex, scalebindex, offsetindex>`. -/
def HOGEwrap (kernel : Kernel w n) (scaleaindex scalebindex offsetindex : Nat)
    (buffers : Nat → Pointer) (s : Hoge Pointer w n) : Hoge Pointer w n :=
  let s := { s with buftlwea := s.memory (buffers 1), buftlweb := s.memory (buffers 2) }
  let s := { s with scalea := scaleaindex, scaleb := scalebindex, offset := offsetindex }
  let s := { s with bufferIna := s.buftlwea, bufferInb := s.buftlweb }
  let s := s.enqueueTask kernel
  let s := { s with bufres := s.bufferRes }
  s.store (buffers 0) s.bufres

/-- `HOGEMUXwrap<negate>`. -/
def HOGEMUXwrap (kernel : Kernel w n) (negate : Bool) (buffers : Nat → Pointer)
    (s : Hoge Pointer w n) : Hoge Pointer w n :=
  let s := { s with buftlwea := s.memory (buffers 1), buftlweb := s.memory (buffers 2) }
  let s := { s with scalea := 0, scaleb := 0, offset := 2 }
  let s := { s with bufferIna := s.buftlwea, bufferInb := s.buftlweb }
  let s := s.enqueueTask kernel
  let s := { s with bufres := s.bufferRes }
  let s := s.store (buffers 0) s.bufres
  -- The select operand is still on the FPGA.
  let s := { s with buftlweb := s.memory (buffers 3) }
  let s := { s with scalea := 2 }
  let s := { s with bufferInb := s.buftlweb }
  let s := s.enqueueTask kernel
  let s := { s with bufres := s.bufferRes }
  let res := s.memory (buffers 0)
  let s := s.store (buffers 0) (if negate then -(res - s.bufres) else res + s.bufres)
  let res := s.memory (buffers 0)
  s.store (buffers 0) (Function.update res (Fin.last n)
    (res (Fin.last n) + if negate then -(μ w : BitVec w) else (μ w : BitVec w)))

/-- `HomGateWrap`, on the worker `worker`. -/
def HomGateWrap (useHoge : Bool) (kernel : Kernel w n)
    (homGate : Int × Int × Int → TLWE w n → TLWE w n → TLWE w n) (gate : WrappedGate)
    (worker : Nat) (buffers : Nat → Pointer) (s : Hoge Pointer w n) : Hoge Pointer w n :=
  let (casign, cbsign, offset) := gate.parameters
  if useHoge ∧ worker = 0 then
    HOGEwrap kernel (scaleIndex casign) (scaleIndex cbsign) (scaleIndex offset) buffers s
  else
    s.store (buffers 0)
      (homGate gate.parameters (s.memory (buffers 1)) (s.memory (buffers 2)))

/-- `HomMUXWrap` and `HomNMUXWrap`, on the worker `worker`; `homMUX` is `TFHEpp::HomMUX` or
`TFHEpp::HomNMUX`. -/
def HomMUXWrap (useHoge : Bool) (kernel : Kernel w n)
    (homMUX : TLWE w n → TLWE w n → TLWE w n → TLWE w n) (negate : Bool) (worker : Nat)
    (buffers : Nat → Pointer) (s : Hoge Pointer w n) : Hoge Pointer w n :=
  if useHoge ∧ worker = 0 then
    HOGEMUXwrap kernel negate buffers s
  else
    s.store (buffers 0)
      (homMUX (s.memory (buffers 1)) (s.memory (buffers 2)) (s.memory (buffers 3)))

end Hoge

end Tangor
