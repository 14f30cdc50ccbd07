/-
What the host has written is read.

A `mark` function comes after the write it is about, so all it can do is keep the write:
the handle is acquired for writing only, which moves no content to main memory, and makes
main memory the one valid place.  An object that has no handle yet needs no mark, since its
registration takes what is in main memory.

`host_write_read` says what this is worth to the calls that follow and to the host.
-/
import Tangor.Proofs.Threads

namespace Tangor.Iyokan

open TaskGraph

variable {Tid Key N V : Type}

/-- The objects whose contents the call depends on. -/
def GateCall.reads (call : GateCall Key) : List Place :=
  if call.submission.output.mode = .RW then call.places
  else call.submission.inputs.map Access.place

theorem task_operands [Inhabited V] (tfhe : TFHE Key V) (call : GateCall Key) :
    (call.task tfhe).operands = call.reads := by
  by_cases hmode : call.submission.output.mode = .RW <;>
    simp [Task.operands, GateCall.task, GateCall.reads, hmode, GateCall.output, GateCall.places,
      Submission.accesses]

/-- What the running task `i` finds in an object. -/
def System.operand (s : System Tid Key N V) (i : Nat) (place : Place) : V :=
  match s.world.find place with
  | some handle => s.runtime.copies handle (s.runtime.place i)
  | none => s.memory place

/-- Once the one task has finished nothing is left to wait for. -/
theorem finished_lt_one {r : Runtime Handle N V} (hfinished : 0 ∈ r.finished) {j : Nat}
    (hj : j < 1) : j ∈ r.finished := by
  obtain rfl := Nat.lt_one_iff.mp hj
  exact hfinished

theorem ready_second_finished {r : Runtime Handle N V} {b : Task Handle V}
    (hfinished : 0 ∈ r.finished) :
    ∀ j u, j < 1 → r.tasks[j]? = some u → u.Conflict b → j ∈ r.finished :=
  fun _ _ hj _ _ => finished_lt_one hfinished hj

theorem untouched_first {s : System Tid Key N V} {a : GateCall Key} (hcalls : s.submitted = [a])
    (hfinished : 0 ∈ s.runtime.finished) (place : Place) : s.Untouched place := by
  intro i call hcall _
  have hi : i < s.submitted.length := (List.getElem?_eq_some_iff.mp hcall).1
  exact finished_lt_one hfinished (by rwa [hcalls] at hi)

theorem writeAcquired_first {r : Runtime Handle N V} {a : Task Handle V} (htasks : r.tasks = [a])
    (hfinished : 0 ∈ r.finished) (handle : Handle) : r.WriteAcquired handle 1 where
  before := fun _ _ _ _ hj => finished_lt_one hfinished hj
  after := by
    intro j t ht _ hj
    have hlt : j < r.tasks.length := (List.getElem?_eq_some_iff.mp ht).1
    rw [htasks] at hlt
    exact absurd hj (Nat.not_le.mpr hlt)

variable [DecidableEq Tid] [DecidableEq Key] [DecidableEq N] [Inhabited V] {tfhe : TFHE Key V}
  {main : N} {useCufhepp : Bool} {σ : Place → V}

/-- **Until a call writes the object again, a task that reads it and a host that looks at it
find what the host has written**: `v`, when there were `k` tasks. -/
theorem host_write_read {s : System Tid Key N V}
    (hrun : Relation.ReflTransGen (Step tfhe main useCufhepp) (System.start main σ) s)
    {place : Place} {v : V} {k : Nat} (hwrite : s.lastWrite place = some (v, k)) :
    (∀ i call, k ≤ i → s.submitted[i]? = some call → s.runtime.Running i → place ∈ call.reads →
      (∀ j other, k ≤ j → j < i → s.submitted[j]? = some other → other.output ≠ place) →
      (call.output = place → call.submission.output.mode = .RW) → s.operand i place = v) ∧
    ((∀ j other, k ≤ j → s.submitted[j]? = some other → other.output ≠ place) →
      s.hostValue main place = v) := by
  obtain ⟨-, -, hn, hm, -, hwrites⟩ := (inv_start σ).run hrun
  have hkept := hwrites place v k hwrite
  refine ⟨?_, ?_⟩
  · intro i call hki hcall hrunning hread hbetween hself
    obtain ⟨t, ht, hnamed⟩ := hn.task hcall
    obtain ⟨handle, hoperand, hfind⟩ := Fallible.forall₂_mem_left hnamed.operands
      (task_operands tfhe call ▸ hread)
    have hfind' : s.world.find place = some handle := hfind
    -- An object that is dirty is opened by no task that still runs.
    have hclean : place ∉ s.objects.dirty := by
      intro hdirty
      refine hrunning.2 (hm.idle place hdirty i call hcall ?_)
      rw [← task_handles tfhe]
      exact Task.operands_subset (task_operands tfhe call ▸ hread)
    obtain ⟨shadow, hs⟩ := hm.shadowed
    have huntouched : s.runtime.Untouched handle k := by
      refine hs.sound.untouched (i := i) hrunning ht (Task.operands_subset hoperand) ?_ ?_
      · intro htgt
        rw [hnamed.update]
        have houtput : call.output = place :=
          hn.unshared _ _ handle (htgt ▸ hnamed.target) hfind
        simpa [GateCall.task] using hself houtput
      · intro j u hu hkj hji htgt
        obtain ⟨other, hother, hout⟩ := hn.writes hu hfind htgt
        exact hbetween j other hkj hji hother hout
    have hvalid := hs.sound.reads_valid (i := i) hrunning ht hoperand
    have hread := hkept.announced handle hfind hclean huntouched (s.runtime.place i) hvalid
    unfold System.operand
    rw [hfind']
    exact hread
  · intro hlater
    unfold System.hostValue
    cases hfind : s.world.find place with
    | none => exact hkept.unregistered hfind
    | some handle =>
        refine (hkept.keeps handle hfind).here fun j t ht htgt hkj => ?_
        obtain ⟨other, hother, hout⟩ := hn.writes ht hfind htgt
        exact absurd hout (hlater j other hkj hother)

/-- A device inverts `true`; the host overwrites the result with `true`, which only the
device had, and the next gate, on the device again, finds the host's value. -/
theorem host_write_read_device : ∃ s : System Unit Unit Bool Bool,
    s.submitted = [.not 1 0, .not 2 1] ∧ s.runtime.Running 1 ∧ s.runtime.place 1 = true ∧
      s.operand 1 (.persistentHandles, 1) = true := by
  have hrun : ∃ s : System Unit Unit Bool Bool,
      Relation.ReflTransGen (Step clearTFHE false false) (System.start false fun _ => true) s ∧
        s.submitted = [.not 1 0, .not 2 1] ∧ s.runtime.Running 1 ∧ s.runtime.place 1 = true ∧
        s.lastWrite (.persistentHandles, 1) = some (true, 1) := by
    refine reach_head (.beginCapture _ () _ rfl rfl) ?_
    refine reach_head (.call _ () (.not 1 0) rfl) ?_
    refine reach_head (.ensure _ () none (some _) {} (.ok ⟨⟩) _ rfl rfl) ?_
    refine reach_head (.handleFor _ () _ _ ⟨.W, .tlwe, 1⟩ 0 _ rfl rfl rfl) ?_
    refine reach_head (.handleFor _ () _ _ ⟨.R, .tlwe, 0⟩ 1 _ rfl rfl rfl) ?_
    refine reach_head (.insert _ () _ _ {} 0 _ rfl rfl (fun _ _ => List.not_mem_nil) rfl) ?_
    refine reach_head (Step.work _ _ (.transfer _ 1 false true rfl) rfl
      (fun _ h => absurd h List.not_mem_nil)) ?_
    refine reach_head (Step.work _ _ (.start _ 0 _ true false rfl (Finset.notMem_empty 0)
      (fun _ _ h => absurd h (Nat.not_lt_zero _))
      (List.forall_mem_singleton.mpr (Set.mem_insert true _))) rfl
      (fun _ h => absurd h List.not_mem_nil)) ?_
    refine reach_head (Step.work _ _ (.finish _ 0 _ rfl ⟨Finset.mem_insert_self 0 ∅,
      Finset.notMem_empty 0⟩) rfl (fun _ h => absurd h List.not_mem_nil)) ?_
    refine reach_head (.hostWrite _ () (.persistentHandles, 1) true rfl
      (untouched_first rfl (Finset.mem_insert_self 0 ∅) _)) ?_
    refine reach_head (.mark _ () (.persistentHandles, 1) 0 rfl rfl) ?_
    refine reach_head (.marked _ () (.persistentHandles, 1) 0 1 rfl
      (writeAcquired_first rfl (Finset.mem_insert_self 0 ∅) 0)) ?_
    refine reach_head (.call _ () (.not 2 1) rfl) ?_
    refine reach_head (.ensure _ () none (some _) {} (.ok ⟨⟩) _ rfl rfl) ?_
    refine reach_head (.handleFor _ () _ _ ⟨.W, .tlwe, 2⟩ 2 _ rfl rfl rfl) ?_
    refine reach_head (.handleFor _ () _ _ ⟨.R, .tlwe, 1⟩ 0 _ rfl rfl rfl) ?_
    refine reach_head (.insert _ () _ _ {} 1 _ rfl rfl (fun _ _ => List.not_mem_nil) rfl) ?_
    refine reach_head (Step.work _ _ (.transfer _ 0 false true rfl) rfl
      (fun _ h => absurd h List.not_mem_nil)) ?_
    refine reach_head (Step.work _ _ (.start _ 1 _ true false rfl (by decide)
      (ready_second_finished (Finset.mem_insert_self 0 ∅))
      (List.forall_mem_singleton.mpr (Set.mem_insert true _))) rfl
      (fun _ h => absurd h List.not_mem_nil)) ?_
    exact ⟨_, .refl, rfl, ⟨Finset.mem_insert_self 1 _, by decide⟩, rfl, rfl⟩
  obtain ⟨s, hreach, hsubmitted, hrunning, hplace, hwrite⟩ := hrun
  refine ⟨s, hsubmitted, hrunning, hplace, ?_⟩
  refine (host_write_read hreach hwrite).1 1 (.not 2 1) (le_refl 1) (by rw [hsubmitted]; rfl)
    hrunning (List.mem_singleton_self _) ?_ (fun h => absurd h (by decide))
  intro j other hj hlt
  exact absurd hlt (Nat.not_lt.mpr hj)

end Tangor.Iyokan
