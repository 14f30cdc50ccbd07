/-
The ciphertext objects of a program.

To the registries an object is its address.  Here is what they do not see: objects are
created wherever the allocator has room, also where another object was destroyed before,
and they are destroyed when no unfinished task touches them.

`Heap` is the backend with the objects that are alive, and with a record of what is in
them in the order of the program: what the host has written, what the calls leave, and
nothing for an object that has just been created.  `HeapStep` is what can happen next.  The
host writes an object in one of two ways: it initialises it and says nothing, or it keeps
to the contract of `mark*HostWrite`.

The sizes of the objects are a parameter, `size`.
-/
import Tangor.IyokanThreads
import Tangor.TaskGraph.Record

namespace Tangor.Iyokan

open Throwing TaskGraph

variable {Tid Key N V : Type}

/-! ### Objects -/

structure CipherObject where
  type : CipherType
  address : Address
deriving DecidableEq, Repr

/-- The object an operand is. -/
def Access.object (access : Access) : CipherObject := ⟨access.type, access.address⟩

namespace CipherObject

/-- Where its handle is kept. -/
def place (o : CipherObject) : Place := Access.place ⟨.R, o.type, o.address⟩

variable (size : CipherType → Nat)

def Covers (o : CipherObject) (byte : Address) : Prop :=
  o.address ≤ byte ∧ byte < o.address + size o.type

/-- The objects share memory. -/
def Overlaps (o p : CipherObject) : Prop :=
  o.address < p.address + size p.type ∧ p.address < o.address + size o.type

instance (o p : CipherObject) : Decidable (o.Overlaps size p) :=
  inferInstanceAs (Decidable (_ ∧ _))

end CipherObject

/-- What a handle is registered for: the address and the type whose size is given. -/
def LibraryCall.description : LibraryCall Key → Option (Handle × CipherObject)
  | .vectorDataRegister handle data => some (handle, ⟨.tlwe, data⟩)
  | .variableDataRegister handle value size => some (handle, ⟨size, value⟩)
  | _ => none

def World.described (w : World Key) : List (Handle × CipherObject) :=
  w.calls.filterMap LibraryCall.description

/-! ### Calls -/

/-- The call a thread is in, before its task is submitted. -/
def Pc.call : Pc Key → Option (GateCall Key)
  | .ensuring _ next | .binding _ next => next
  | .submitting call _ => some call
  | _ => none

namespace GateCall

def objects (call : GateCall Key) : List CipherObject :=
  call.submission.accesses.map Access.object

instance (call : GateCall Key) : Decidable call.Unaliased :=
  match call with
  | .binaryGate .. => inferInstanceAs (Decidable (_ ∧ _))
  | .not .. => inferInstanceAs (Decidable (_ ≠ _))
  | .mux .. => inferInstanceAs (Decidable (_ ∧ _ ∧ _))
  | .cmuxFFT .. => inferInstanceAs (Decidable (_ ∧ ¬ (_ ∧ _)))
  | .muxWoSE .. => inferInstanceAs (Decidable True)

/-- The contents of all operands the call reads are known. -/
def Known (call : GateCall Key) (σ : Place → Option V) : Prop :=
  ∀ access ∈ call.submission.accesses, access.mode ≠ .W → (σ access.place).isSome = true

instance (call : GateCall Key) (σ : Place → Option V) : Decidable (call.Known σ) :=
  inferInstanceAs (Decidable (∀ access ∈ call.submission.accesses,
    access.mode ≠ .W → (σ access.place).isSome = true))

/-- What the call leaves in its output, as far as it is known.  Nothing is where the output
is listed a second time. -/
def outcome [Inhabited V] (tfhe : TFHE Key V) (call : GateCall Key) (σ : Place → Option V) :
    Option V :=
  if call.Unaliased ∧ call.Known σ then
    some (call.value tfhe fun place => (σ place).getD default)
  else none

end GateCall

/-- The record once the tasks of the calls have been submitted. -/
def recordCalls [Inhabited V] (tfhe : TFHE Key V) (R : Record Place V)
    (calls : List (GateCall Key)) : Record Place V :=
  calls.foldl (fun R call => R.submit call.output (call.outcome tfhe R.now)) R

/-! ### The heap -/

structure Heap (Tid Key N V : Type) where
  system : System Tid Key N V
  live : List CipherObject := []
  record : Record Place V := {}

namespace Heap

/-- There is no object, and nothing has been called. -/
def start [Inhabited V] (main : N) (memory : Place → V) : Heap Tid Key N V where
  system := System.start main memory

/-- The backend has gone on to `s`. -/
def ran [Inhabited V] (tfhe : TFHE Key V) (h : Heap Tid Key N V) (s : System Tid Key N V) :
    Heap Tid Key N V :=
  { h with
    system := s
    record := recordCalls tfhe h.record (s.submitted.drop h.system.submitted.length) }

end Heap

/-- What a program does. -/
inductive HeapEvent (V : Type) where
  | create (o : CipherObject)
  | destroy (o : CipherObject)
  /-- The host writes `v` and calls no `mark` function. -/
  | initialise (o : CipherObject) (v : V)
  /-- The host writes `v` and marks the object later. -/
  | write (o : CipherObject) (v : V)
  /-- Everything else, on the threads, in the callbacks and on the workers. -/
  | backend

section Steps

variable [DecidableEq Tid] [DecidableEq Key] [DecidableEq N] [Inhabited V] (tfhe : TFHE Key V)
  (main : N) (useCufhepp : Bool) (size : CipherType → Nat)

inductive HeapStep : Heap Tid Key N V → HeapEvent V → Heap Tid Key N V → Prop
  | create (h : Heap Tid Key N V) (o : CipherObject)
      (hroom : ∀ p ∈ h.live, ¬ o.Overlaps size p) :
      HeapStep h (.create o)
        { h with live := o :: h.live, record := h.record.forget o.place }
  | destroy (h : Heap Tid Key N V) (o : CipherObject) (hlive : o ∈ h.live)
      (hidle : h.system.Untouched o.place)
      (hcalls : ∀ t call, (h.system.threads t).pc.call = some call → o ∉ call.objects) :
      HeapStep h (.destroy o) { h with live := h.live.erase o }
  | initialise (h : Heap Tid Key N V) (t : Tid) (o : CipherObject) (v : V) (hlive : o ∈ h.live)
      (hpc : (h.system.threads t).pc = .idle) (hidle : h.system.Untouched o.place) :
      HeapStep h (.initialise o v)
        { h with
          system := (h.system.hostWrite main o.place v).marked o.place
          record := h.record.write o.place v }
  | write (h : Heap Tid Key N V) (t : Tid) (o : CipherObject) (v : V) (hlive : o ∈ h.live)
      (hpc : (h.system.threads t).pc = .idle) (hidle : h.system.Untouched o.place) :
      HeapStep h (.write o v)
        { h with
          system := h.system.hostWrite main o.place v
          record := h.record.write o.place v }
  /-- Calls name objects that are alive, and what is marked has been written. -/
  | backend (h : Heap Tid Key N V) (s : System Tid Key N V)
      (hstep : Step tfhe main useCufhepp h.system s)
      (hcalls : ∀ t call, (s.threads t).pc.call = some call →
        (h.system.threads t).pc.call = some call ∨ ∀ o ∈ call.objects, o ∈ h.live)
      (hmark : s.written = h.system.written ∨
        ∃ place ∈ h.system.dirty, place ∉ s.dirty) :
      HeapStep h .backend (h.ran tfhe s)

end Steps

end Tangor.Iyokan
