/-
The clients of the test circuits, `test/mul` and `test/addermini`.

`client` draws two operands, prints what it expects of them, and encrypts their bits one by
one, least significant first, behind two bits for the clock and the reset.  `verify` decrypts
the result and adds up its bits.  The two circuits differ in the operation and in the number
of output bits.

A `uint8_t` has 8 bits, and an operand or an answer 32, which wrap around.
-/
import Tangor.StarpuBuildGraph

namespace Tangor

/-- A circuit with two operands, and what its client expects of it.  The expected number has
no more bits than the circuit has outputs, and no more than the answer. -/
structure OperandTest where
  bitwidth : Nat
  outputs : Nat
  expected : BitVec 32 → BitVec 32 → BitVec 32
  outputs_le : outputs ≤ 32
  fits : ∀ ina inb, ina.toNat < 2 ^ bitwidth → inb.toNat < 2 ^ bitwidth →
    (expected ina inb).toNat < 2 ^ outputs

namespace OperandTest

/-- `test/mul`. -/
def mul : OperandTest where
  bitwidth := 16
  outputs := 32
  expected ina inb := ina * inb
  outputs_le := le_refl 32
  fits ina inb _ _ := (ina * inb).isLt

/-- `test/addermini`. -/
def addermini : OperandTest where
  bitwidth := 16
  outputs := 17
  expected ina inb := ina + inb
  outputs_le := by decide
  fits ina inb ha hb := by
    rw [BitVec.toNat_add]
    omega

variable (test : OperandTest)

/-- The vector `p` of the client, which is encrypted. -/
def client (ina inb : BitVec 32) : List (BitVec 8) :=
  let p := List.replicate (2 + 2 * test.bitwidth) 0
  let p := (List.range test.bitwidth).foldl
    (fun p i => p.set (i + 2) (((ina >>> i) &&& 1).setWidth 8)) p
  (List.range test.bitwidth).foldl
    (fun p i => p.set (i + 2 + test.bitwidth) (((inb >>> i) &&& 1).setWidth 8)) p

/-- `int_answer` of `verify`, from the decrypted vector; a bit behind its end cannot be
read. -/
def verify (p : List (BitVec 8)) : Option (BitVec 32) :=
  (List.range test.outputs).foldlM
    (fun answer i => p[i]?.map fun bit => answer + (bit.setWidth 32 <<< i)) 0

end OperandTest

/-- `bootsSymDecrypt`, of one ciphertext. -/
def bitOf (b : Bool) : BitVec 8 := if b then 1 else 0

end Tangor
