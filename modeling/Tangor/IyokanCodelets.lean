/-
The codelets of `src/iyokan-starpu-codelets.cpp`, on the buffers StarPU hands them.

A codelet gets one pointer for each operand of its task, and one and the same pointer for a
handle that is listed twice.  What it does in between is a sequence of reads and writes of
objects: the buffers and its own local variables.  `IyokanCodelet.run` of `IyokanThreads` is
what remains of this when the written handle is listed once.

StarPU runs a task that lists a written handle once.  A buffer that is opened for writing
only may then hold anything; of any other task nothing is promised at all, so `Outcome`
allows every contents after it.

The functions of TFHEpp get distinct objects, but for `CMUXFFT`, which gets the buffers
themselves; it is right as long as its output is neither of its data operands, and the
selector is never the output, being of another type.
-/
import Tangor.IyokanThreads

namespace Tangor.Iyokan

variable {Key V : Type}

/-- The local variables of the codelets. -/
inductive Local where
  | output | left | right | select | whenTrue | whenFalse
deriving DecidableEq, Repr

/-- The objects a codelet can name. -/
inductive Object where
  | buffer (handle : Handle)
  | auto (name : Local)
deriving DecidableEq, Repr

/-- TFHEpp, with `CMUXFFT` on objects. -/
structure TFHEpp (Key V : Type) extends TFHE Key V where
  CMUXFFT (output select whenTrue whenFalse : Object) (memory : Object → V) : Object → V
  CMUXFFT_distinct : ∀ (output select whenTrue whenFalse : Object) (memory : Object → V),
    output ≠ select → output ≠ whenTrue → output ≠ whenFalse →
      CMUXFFT output select whenTrue whenFalse memory = Function.update memory output
        (cmuxFFT (memory select) (memory whenTrue) (memory whenFalse))

/-- A copy, coordinate by coordinate. -/
def copyInput (destination source : Object) (memory : Object → V) : Object → V :=
  Function.update memory destination (memory source)

section Codelets

variable [Inhabited V] (tfhe : TFHEpp Key V) (currentEvalKey : Option Key)
  (buffers : Nat → Handle) (memory : Object → V)

def binaryCodelet (gate : IyokanBinaryGate) : Object → V :=
  let memory := copyInput (.auto .left) (.buffer (buffers 1)) memory
  let memory := copyInput (.auto .right) (.buffer (buffers 2)) memory
  let memory := Function.update memory (.auto .output) (currentEvalKey.elim default fun evalKey =>
    tfhe.binaryGate gate evalKey (memory (.auto .left)) (memory (.auto .right)))
  copyInput (.buffer (buffers 0)) (.auto .output) memory

/-- Each coordinate is read before it is written. -/
def notCodelet : Object → V :=
  Function.update memory (.buffer (buffers 0)) (tfhe.negate (memory (.buffer (buffers 1))))

def muxCodelet : Object → V :=
  let memory := copyInput (.auto .select) (.buffer (buffers 1)) memory
  let memory := copyInput (.auto .whenTrue) (.buffer (buffers 2)) memory
  let memory := copyInput (.auto .whenFalse) (.buffer (buffers 3)) memory
  let memory := Function.update memory (.auto .output) (currentEvalKey.elim default fun evalKey =>
    tfhe.homMUX evalKey (memory (.auto .select)) (memory (.auto .whenTrue))
      (memory (.auto .whenFalse)))
  copyInput (.buffer (buffers 0)) (.auto .output) memory

def cmuxFFTCodelet : Object → V :=
  tfhe.CMUXFFT (.buffer (buffers 0)) (.buffer (buffers 1)) (.buffer (buffers 2))
    (.buffer (buffers 3)) memory

def cmuxFFTInPlaceTrueCodelet : Object → V :=
  let memory := copyInput (.auto .whenTrue) (.buffer (buffers 0)) memory
  tfhe.CMUXFFT (.buffer (buffers 0)) (.buffer (buffers 1)) (.auto .whenTrue)
    (.buffer (buffers 2)) memory

def cmuxFFTInPlaceFalseCodelet : Object → V :=
  let memory := copyInput (.auto .whenFalse) (.buffer (buffers 0)) memory
  tfhe.CMUXFFT (.buffer (buffers 0)) (.buffer (buffers 1)) (.buffer (buffers 2))
    (.auto .whenFalse) memory

/-- The output is of another type than the operands. -/
def muxWoSECodelet : Object → V :=
  Function.update memory (.buffer (buffers 0)) (currentEvalKey.elim default fun evalKey =>
    tfhe.homMUXwoSE evalKey (memory (.buffer (buffers 1))) (memory (.buffer (buffers 2)))
      (memory (.buffer (buffers 3))))

/-- The `cpu_funcs` of the codelets. -/
def IyokanCodelet.execute : IyokanCodelet → Object → V
  | .binaryCodelet gate => Iyokan.binaryCodelet tfhe currentEvalKey buffers memory gate
  | .notCodelet => Iyokan.notCodelet tfhe buffers memory
  | .muxCodelet => Iyokan.muxCodelet tfhe currentEvalKey buffers memory
  | .cmuxFFTCodelet => Iyokan.cmuxFFTCodelet tfhe buffers memory
  | .cmuxFFTInPlaceTrueCodelet => Iyokan.cmuxFFTInPlaceTrueCodelet tfhe buffers memory
  | .cmuxFFTInPlaceFalseCodelet => Iyokan.cmuxFFTInPlaceFalseCodelet tfhe buffers memory
  | .muxWoSECodelet => Iyokan.muxWoSECodelet tfhe currentEvalKey buffers memory

end Codelets

/-! ### Tasks -/

/-- A handle that is written is not listed a second time. -/
def Supported (buffers : List (AccessMode × Handle)) : Prop :=
  buffers.Pairwise fun a b => a.2 = b.2 → a.1 = .R ∧ b.1 = .R

instance (buffers : List (AccessMode × Handle)) : Decidable (Supported buffers) :=
  inferInstanceAs (Decidable (List.Pairwise _ _))

/-- What the buffers hold when the codelet starts. -/
def Loaded (buffers : List (AccessMode × Handle)) (contents : Handle → V)
    (memory : Object → V) : Prop :=
  ∀ mode handle, (mode, handle) ∈ buffers → mode ≠ .W → memory (.buffer handle) = contents handle

/-- What the handles may hold after a task that is run on its own. -/
inductive Outcome [Inhabited V] (tfhe : TFHEpp Key V) (currentEvalKey : Option Key)
    (codelet : IyokanCodelet) (buffers : List (AccessMode × Handle)) (contents : Handle → V) :
    (Handle → V) → Prop
  | ran (memory : Object → V) (hsupported : Supported buffers)
      (hloaded : Loaded buffers contents memory) :
      Outcome tfhe currentEvalKey codelet buffers contents fun handle =>
        if handle ∈ buffers.map Prod.snd then
          codelet.execute tfhe currentEvalKey (fun i => (buffers.map Prod.snd).getD i 0) memory
            (.buffer handle)
        else contents handle
  | unsupported (contents' : Handle → V) (hunsupported : ¬ Supported buffers) :
      Outcome tfhe currentEvalKey codelet buffers contents contents'

/-- The buffers of a call's task: the modes of its operands, and their handles. -/
def GateCall.buffers (call : GateCall Key) (handles : List Handle) :
    List (AccessMode × Handle) :=
  (call.submission.accesses.map Access.mode).zip handles

/-- Whatever the task of the call does to the contents of the handles, the output is what the
gate makes of the operands, and every other object is what it was. -/
def GateCall.Safe [Inhabited V] (tfhe : TFHEpp Key V) (currentEvalKey : Option Key)
    (find : Place → Option Handle) (call : GateCall Key) (handles : List Handle) : Prop :=
  ∀ (σ : Place → V) (contents contents' : Handle → V),
    (∀ place handle, find place = some handle → contents handle = σ place) →
    Outcome tfhe currentEvalKey call.submission.codelet (call.buffers handles) contents contents' →
    ∀ place handle, find place = some handle →
      contents' handle = call.apply tfhe.toTFHE σ place

end Tangor.Iyokan
