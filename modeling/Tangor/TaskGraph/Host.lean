/-
The host next to a running graph.

A host thread reads or overwrites a handle by acquiring it: the runtime makes it wait
for the tasks already submitted that are in its way, keeps later ones out, and, for a
reader, brings the content to the main memory first.

What the host may then rely on does not depend on what the tasks compute, nor on
whether they are well formed: `Sound` keeps only the order of the starts and the
agreement of the copies, and `Current` says that the copy in main memory is as good as
any other and that no task is left that would change it.  For a graph of well-formed
tasks, `Current.copy_eq` adds what that content is.
-/
import Tangor.TaskGraph.Runtime

namespace TaskGraph

variable {H N V : Type*}

namespace Runtime

/-- A host reader that asked for `h` when there were `b` tasks is let in. -/
structure ReadAcquired (r : Runtime H N V) (main : N) (h : H) (b : Nat) : Prop where
  before : ∀ j t, r.tasks[j]? = some t → t.target = h → j < b → j ∈ r.finished
  after : ∀ j t, r.tasks[j]? = some t → t.target = h → b ≤ j → j ∉ r.started
  here : main ∈ r.valid h

/-- A host writer that asked for `h` when there were `b` tasks is let in. -/
structure WriteAcquired (r : Runtime H N V) (h : H) (b : Nat) : Prop where
  before : ∀ j t, r.tasks[j]? = some t → h ∈ t.handles → j < b → j ∈ r.finished
  after : ∀ j t, r.tasks[j]? = some t → h ∈ t.handles → b ≤ j → j ∉ r.started

/-- No task is left that writes `h`, and no copy of `h` is newer than the one on `main`. -/
structure Current (r : Runtime H N V) (main : N) (h : H) : Prop where
  done : r.WritersDone h
  copy : ∀ n ∈ r.valid h, r.copies h n = r.copies h main

/-- While a writer holds `h`, no task that opens it is running. -/
theorem WriteAcquired.idle {r : Runtime H N V} {h : H} {b : Nat} (ha : r.WriteAcquired h b)
    {i : Nat} {t : Task H V} (hrun : r.Running i) (ht : r.tasks[i]? = some t) :
    h ∉ t.handles := by
  intro hh
  rcases Nat.lt_or_ge i b with hlt | hge
  · exact hrun.2 (ha.before i t ht hh hlt)
  · exact ha.after i t ht hh hge hrun.1

/-- A task that writes another handle leaves `h` as it is. -/
theorem Current.submit {r : Runtime H N V} {main : N} {h : H} (hcur : r.Current main h)
    {t : Task H V} (ht : t.target ≠ h) : (r.submit t).Current main h := by
  refine ⟨?_, hcur.copy⟩
  intro j u hu htgt
  rcases Machine.getElem?_submit (s := r.machine fun h => r.copies h main) hu with hold | ⟨-, rfl⟩
  · exact hcur.done j u hold htgt
  · exact absurd htgt ht

/-- The starts are in order and the valid copies agree. -/
def Sound (r : Runtime H N V) : Prop := ∃ c, (r.machine c).Ordered ∧ r.Coherent c

theorem Sound.sub {r : Runtime H N V} (hr : r.Sound) : r.finished ⊆ r.started := by
  obtain ⟨c, ho, -⟩ := hr
  exact ho.sub

/-- A task that finished started after every earlier task it conflicts with. -/
theorem Sound.finished_order {r : Runtime H N V} (hr : r.Sound) {i j : Nat} {t u : Task H V}
    (hi : i ∈ r.finished) (ht : r.tasks[i]? = some t) (hu : r.tasks[j]? = some u) (hji : j < i)
    (hc : u.Conflict t) : j ∈ r.finished := by
  obtain ⟨c, ho, -⟩ := hr
  exact ho.order i t (ho.sub hi) ht j u hji hu hc

theorem Sound.submit {r : Runtime H N V} (hr : r.Sound) (t : Task H V) : (r.submit t).Sound := by
  obtain ⟨c, ho, hc⟩ := hr
  exact ⟨c, ho.submit t, hc.submit ho t⟩

/-- A reader that is let in finds every valid copy equal to the one on `main`. -/
theorem Sound.current {r : Runtime H N V} (hr : r.Sound) {main : N} {h : H}
    (hdone : r.WritersDone h) (hmain : main ∈ r.valid h) : r.Current main h := by
  obtain ⟨c, -, hc⟩ := hr
  refine ⟨hdone, fun n hn => ?_⟩
  rw [hc.agree h n hn, hc.agree h main hmain]

variable [DecidableEq H]

theorem OK.sound {r : Runtime H N V} (hok : r.OK) : r.Sound := by
  obtain ⟨c, hi, hc⟩ := hok
  exact ⟨c, hi.toOrdered, hc⟩

/-- The copy on `main` then holds what running the tasks in order leaves there. -/
theorem Current.copy_eq {r : Runtime H N V} {main : N} {h : H} (hcur : r.Current main h)
    (hok : r.OK) : r.copies h main = runAll r.tasks r.init h := by
  obtain ⟨c, -, hc⟩ := id hok
  obtain ⟨n, hn⟩ := hc.someValid h
  rw [← hcur.copy n hn]
  exact hok.copy_eq hcur.done hn

variable [DecidableEq N]

theorem Sound.step {r r' : Runtime H N V} (hr : r.Sound) (h : Step r r') : r'.Sound := by
  obtain ⟨c, ho, hc⟩ := hr
  obtain ⟨c', hsim, hc'⟩ := h.simulates ho hc
  rcases hsim with heq | hstep
  · exact ⟨c', heq ▸ ho, hc'⟩
  · exact ⟨c', ho.step hstep, hc'⟩

theorem Sound.register {r : Runtime H N V} (hr : r.Sound) (main : N) {h : H} (v : V)
    (hfresh : ∀ t ∈ r.tasks, h ∉ t.handles) : (r.register main h v).Sound := by
  obtain ⟨c, ho, hc⟩ := hr
  exact ⟨Function.update c h v, ⟨ho.bound, ho.sub, ho.order⟩, hc.register main v hfresh⟩

/-- The host puts `v` into a handle it has acquired for writing. -/
theorem Sound.overwrite {r : Runtime H N V} (hr : r.Sound) (main : N) {h : H} {b : Nat} (v : V)
    (ha : r.WriteAcquired h b) : (r.overwrite h main v).Sound := by
  obtain ⟨c, ho, hc⟩ := hr
  exact ⟨Function.update c h v, ⟨ho.bound, ho.sub, ho.order⟩, hc.overwrite main v
    fun i t hrun ht hh => ha.idle hrun ht (Task.operands_subset hh)⟩

/-- Overwriting another handle on some memory leaves `h` as it is. -/
theorem Current.overwrite {r : Runtime H N V} {main : N} {h : H} (hcur : r.Current main h)
    {x : H} (n : N) (v : V) (hx : h ≠ x) : (r.overwrite x n v).Current main h := by
  refine ⟨hcur.done, fun p hp => ?_⟩
  rw [valid_overwrite r x n v hx] at hp
  rw [copies_overwrite r x n v hx, copies_overwrite r x n v hx]
  exact hcur.copy p hp

theorem Current.register {r : Runtime H N V} {main : N} {h : H} (hcur : r.Current main h) {x : H}
    (v : V) (hx : h ≠ x) : (r.register main x v).Current main h := by
  have hover := hcur.overwrite main v hx
  exact ⟨hover.done, hover.copy⟩

/-- No step of a worker changes what the host finds in `h`. -/
theorem Current.step {r r' : Runtime H N V} {main : N} {h : H} (hr : r.Sound)
    (hcur : r.Current main h) (hstep : Step r r') : r'.Current main h := by
  have hdone : r'.WritersDone h := by
    intro j t ht htgt
    rw [hstep.tasks_eq] at ht
    exact hstep.finished_subset (hcur.done j t ht htgt)
  refine ⟨hdone, ?_⟩
  cases hstep with
  | transfer x m n hm =>
      intro p hp
      by_cases hx : h = x
      · subst hx
        -- Every copy involved is the one on `main`.
        have hfrom := hcur.copy m hm
        have hall : ∀ q, q = n ∨ q ∈ r.valid h →
            Function.update (r.copies h) n (r.copies h m) q = r.copies h main := by
          intro q hq
          by_cases hqn : q = n
          · rw [hqn, Function.update_self, hfrom]
          · rw [Function.update_of_ne hqn]
            exact hcur.copy q (hq.resolve_left hqn)
        have hmain : Function.update (r.copies h) n (r.copies h m) main = r.copies h main := by
          by_cases hmn : main = n
          · rw [hmn, Function.update_self, hfrom, hmn]
          · rw [Function.update_of_ne hmn]
        have hp' : p = n ∨ p ∈ r.valid h := by simpa [Runtime.transfer] using hp
        simpa [Runtime.transfer] using (hall p hp').trans hmain.symm
      · have hp' : p ∈ r.valid h := by simpa [Runtime.transfer, Function.update_of_ne hx] using hp
        simpa [Runtime.transfer, Function.update_of_ne hx] using hcur.copy p hp'
  | evict x n hother hidle =>
      intro p hp
      refine hcur.copy p ?_
      by_cases hx : h = x
      · subst hx
        exact (show p ∈ r.valid h \ {n} by simpa [Runtime.evict] using hp).1
      · simpa [Runtime.evict, Function.update_of_ne hx] using hp
  | start i t n junk ht hnew hready hhere =>
      have hx : h ≠ t.target := by
        rintro rfl
        exact hnew (hr.sub (hcur.done i t ht rfl))
      exact (hcur.overwrite n _ hx).copy
  | finish i t ht hrun =>
      have hx : h ≠ t.target := by
        rintro rfl
        exact hrun.2 (hcur.done i t ht rfl)
      exact (hcur.overwrite (r.place i) _ hx).copy

end Runtime

end TaskGraph
