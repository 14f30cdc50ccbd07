/-
How large the errors of a program get.

Every ciphertext has an error, and it decrypts to what it should as long as the error is
small.  A bootstrapped gate needs errors below half of `μ` and leaves one that does not depend
on them; a negation keeps the error, and a `CMUX` adds to it, so that only a tree of them that
is not too deep can be read.

`estimate` goes through a program of the backend with a bound on each error, next to what the
ciphertext holds, and gives up where the bounds are not enough.  What TRLWEs hold is a
parameter, `M`.
-/
import Tangor.IyokanProgram
import Tangor.Proofs.GateTables

namespace Tangor.Iyokan

variable {Key V M : Type}

/-- What is known of a ciphertext. -/
inductive Estimate (M : Type) where
  /-- A TLWE of the bit, with an error of at most `error`. -/
  | wire (b : Bool) (error : Int)
  /-- A TRLWE. -/
  | packed (m : M) (error : Int)
  /-- A TRGSW, to select by. -/
  | selector (b : Bool)
deriving DecidableEq, Repr

/-- The errors TFHEpp makes, and the TRLWE a bit becomes. -/
structure Errors (M : Type) where
  homGate : Int
  homMUX : Int
  cmuxFFT : Int
  homMUXwoSE : Int
  pack : Bool → M

/-- A wire a gate can be applied to. -/
def Estimate.read (μ : Int) : Option (Estimate M) → Option Bool
  | some (.wire b error) => if 2 * error < μ then some b else none
  | _ => none

/-- The wire a multiplexer selects. -/
def Estimate.select (μ : Int) (s t f : Option (Estimate M)) : Option Bool := do
  let s ← read μ s
  let t ← read μ t
  let f ← read μ f
  return if s then t else f

section Estimate

variable (errors : Errors M) (μ : Int) (σ : Place → Option (Estimate M))

/-- What is known of the output of a call. -/
def GateCall.estimate : GateCall Key → Option (Estimate M)
  | .binaryGate gate _ left right _ => do
      let a ← Estimate.read μ (σ (.persistentHandles, left))
      let b ← Estimate.read μ (σ (.persistentHandles, right))
      return .wire (gate.eval a b) errors.homGate
  | .not _ input =>
      match σ (.persistentHandles, input) with
      | some (.wire b error) => some (.wire (!b) error)
      | _ => none
  | .mux _ select whenTrue whenFalse _ => do
      let b ← Estimate.select μ (σ (.persistentHandles, select))
        (σ (.persistentHandles, whenTrue)) (σ (.persistentHandles, whenFalse))
      return .wire b errors.homMUX
  | .cmuxFFT _ select whenTrue whenFalse =>
      match σ (.persistentVariableHandles, select), σ (.persistentVariableHandles, whenTrue),
        σ (.persistentVariableHandles, whenFalse) with
      | some (.selector s), some (.packed t k), some (.packed f l) =>
          some (.packed (if s then t else f) (max k l + errors.cmuxFFT))
      | _, _, _ => none
  | .muxWoSE _ select whenTrue whenFalse _ => do
      let b ← Estimate.select μ (σ (.persistentHandles, select))
        (σ (.persistentHandles, whenTrue)) (σ (.persistentHandles, whenFalse))
      return .packed (errors.pack b) errors.homMUXwoSE

variable [DecidableEq Key] (key : Key) (known : V → Option (Estimate M))

/-- What is known after one event: of what the host writes, `known`; and nothing of what
another key is used for. -/
def ProgramEvent.estimate : ProgramEvent Key V → Place → Option (Estimate M)
  | .create place => Function.update σ place none
  | .write place v => Function.update σ place (known v)
  | .called call => Function.update σ call.output
      (if call.Unaliased ∧ (call.evalKey = none ∨ call.evalKey = some key) then
        call.estimate errors μ σ
      else none)

end Estimate

/-- What is known after the program. -/
def estimate [DecidableEq Key] (errors : Errors M) (μ : Int) (key : Key)
    (known : V → Option (Estimate M)) (program : List (ProgramEvent Key V)) :
    Place → Option (Estimate M) :=
  program.foldl (fun σ event => event.estimate errors μ σ key known) fun _ => none

end Tangor.Iyokan
