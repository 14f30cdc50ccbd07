/-
What a program over the backend means.

Whoever writes the program does not see StarPU: it makes objects, writes some of them, and
calls gates, and each call leaves in its output what the gate makes of what was in the
operands then.  `replay` goes through the program like that, and has `none` where the
contents are not known: in an object that was made and not written, and behind a call that
reads such an object, or lists its output a second time.

The threads may make their calls at the same time.  The order of the program is the order in
which StarPU has accepted the tasks, with what the host did in between.
-/
import Tangor.IyokanHeap

namespace Tangor.Iyokan

open TaskGraph

variable {Tid Key N V : Type}

/-- What the program does to its objects. -/
inductive ProgramEvent (Key V : Type) where
  /-- An object is made, and holds anything. -/
  | create (place : Place)
  | write (place : Place) (v : V)
  | called (call : GateCall Key)

section Replay

variable [Inhabited V] (tfhe : TFHE Key V)

/-- What is in the objects after one event. -/
def ProgramEvent.apply (σ : Place → Option V) : ProgramEvent Key V → Place → Option V
  | .create place => Function.update σ place none
  | .write place v => Function.update σ place (some v)
  | .called call => Function.update σ call.output (call.outcome tfhe σ)

/-- What is in the objects after the program. -/
def replay (program : List (ProgramEvent Key V)) : Place → Option V :=
  program.foldl (fun σ event => event.apply tfhe σ) fun _ => none

end Replay

/-- What a step adds to the program: the backend adds the calls StarPU has accepted. -/
def Heap.events (h h' : Heap Tid Key N V) : HeapEvent V → List (ProgramEvent Key V)
  | .create o => [.create o.place]
  | .destroy _ => []
  | .initialise o v | .write o v => [.write o.place v]
  | .backend => (h'.system.submitted.drop h.system.submitted.length).map .called

end Tangor.Iyokan
