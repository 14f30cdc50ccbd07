/-
What a host reader finds is what the program has put there.

`handles_follow` is about the tasks; here is the other end.  A host that has synchronised a
task reads its output in main memory, and finds there what the program means: the result of
all calls and host writes up to it, in the order of the program, whatever objects have been
made and destroyed in between, on whatever devices the tasks ran and however the copies moved.
-/
import Tangor.IyokanProgram
import Tangor.Proofs.Heap

namespace Tangor.Iyokan

open Throwing TaskGraph

variable {Tid Key N V : Type}

section Runs

variable [DecidableEq Tid] [DecidableEq Key] [DecidableEq N] [Inhabited V] {tfhe : TFHE Key V}
  {main : N} {useCufhepp : Bool} {size : CipherType → Nat} {σ : Place → V}
  {h h' : Heap Tid Key N V} {program : List (ProgramEvent Key V)}

/-- The program has brought the backend to this heap, and was permitted to do what it did. -/
inductive HeapRun (tfhe : TFHE Key V) (main : N) (useCufhepp : Bool) (size : CipherType → Nat)
    (σ : Place → V) : List (ProgramEvent Key V) → Heap Tid Key N V → Prop
  | start : HeapRun tfhe main useCufhepp size σ [] (Heap.start main σ)
  | step {program : List (ProgramEvent Key V)} {h h' : Heap Tid Key N V} {e : HeapEvent V}
      (hrun : HeapRun tfhe main useCufhepp size σ program h)
      (hstep : HeapStep tfhe main useCufhepp size h e h') (hpermits : h.Permits size e) :
      HeapRun tfhe main useCufhepp size σ (program ++ h.events h' e) h'

omit [DecidableEq Tid] [DecidableEq Key] [DecidableEq N] in
theorem replay_append (program events : List (ProgramEvent Key V)) :
    replay tfhe (program ++ events)
      = events.foldl (fun σ event => event.apply tfhe σ) (replay tfhe program) :=
  List.foldl_append

omit [DecidableEq Tid] [DecidableEq Key] [DecidableEq N] in
theorem now_recordCalls (R : Record Place V) (calls : List (GateCall Key)) :
    (recordCalls tfhe R calls).now
      = (calls.map .called).foldl (fun σ event => ProgramEvent.apply tfhe σ event) R.now := by
  induction calls generalizing R with
  | nil => rfl
  | cons call rest ih => exact ih _

/-- The record is that of the program. -/
theorem HeapRun.now (hrun : HeapRun tfhe main useCufhepp size σ program h) :
    h.record.now = replay tfhe program := by
  induction hrun with
  | start => rfl
  | step _ hstep hpermits ih =>
      rw [replay_append, ← ih]
      cases hstep with
      | create o hroom => rfl
      | destroy o hlive hidle hcalls => rfl
      | initialise t o v hlive hpc hidle => rfl
      | write t o v hlive hpc hidle => rfl
      | backend s hstep hcalls hmark => exact now_recordCalls _ _

/-! ### Synchronised outputs -/

omit [DecidableEq Tid] [DecidableEq Key] [DecidableEq N] [Inhabited V] in
/-- Every handle has a valid copy somewhere. -/
theorem Objects.Memory.someValid {o : Objects Key N V} (hm : o.Memory σ) (handle : Handle) :
    (o.runtime.valid handle).Nonempty := by
  obtain ⟨shadow, hs⟩ := hm.shadowed
  obtain ⟨c, -, hc⟩ := hs.sound
  exact hc.someValid handle

omit [DecidableEq Tid] [DecidableEq Key] in
/-- The output of a synchronised task, unless it has been written again, is in main memory as
the program left it. -/
theorem Heap.Inv.synchronized (hi : h.Inv tfhe main useCufhepp size σ) {task : IyokanStarpuTask}
    {call : GateCall Key} (hsync : task ∈ h.system.synchronized)
    (hcall : h.system.submitted[task]? = some call)
    (hlast : ∀ j other, task < j → h.system.submitted[j]? = some other →
      other.output ≠ call.output) {v : V} (hnow : h.record.now call.output = some v) :
    h.system.hostValue main call.output = v := by
  obtain ⟨hn, hm, hs, -⟩ := hi.system.objects
  obtain ⟨call', hcall', hfresh⟩ := hs task hsync
  obtain rfl := Option.some.inj (hcall.symm.trans hcall')
  obtain ⟨handle, hfind⟩ := hfresh.found
  have hcurrent := hfresh.current (fun j other hother hj => hlast j other hj hother) handle hfind
  -- All writers have finished, so the whole record is settled.
  have hsettled : h.system.runtime.Settled handle h.system.submitted.length := by
    refine ⟨fun j t ht htgt _ => hcurrent.done j t ht htgt, fun j t ht htgt hj => ?_⟩
    have hlt : j < h.system.runtime.tasks.length := (List.getElem?_eq_some_iff.mp ht).1
    rw [show h.system.runtime.tasks.length = h.system.submitted.length from hn.length.symm] at hlt
    exact absurd hj (Nat.not_le.mpr hlt)
  have hlength : h.record.before.length = h.system.submitted.length := hi.recalls.length
  have hsince : h.record.since call.output ≤ h.system.submitted.length := by
    have hbound := hi.recalls.follows.bound call.output
    rw [List.length_map] at hbound
    exact hbound
  have hseen : h.record.seen h.system.submitted.length call.output = some v := by
    rw [Record.seen_of_le (Nat.le_of_eq hlength)]
    exact hnow
  have hrecorded := hi.recalls.clean call.output handle hfind hfresh.clean _ v hsettled hsince hseen
  obtain ⟨n, hn⟩ := hm.someValid handle
  unfold System.hostValue
  rw [show h.system.world.find call.output = some handle from hfind]
  exact (hcurrent.copy n hn).symm.trans (hrecorded n hn)

end Runs

end Tangor.Iyokan
