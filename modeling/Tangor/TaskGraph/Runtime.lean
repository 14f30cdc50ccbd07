/-
Handles replicated over several memories.

A runtime with accelerators keeps a copy of a handle in each memory that needs one,
and remembers which copies are valid.  A worker runs a task on the copies of its own
memory: what it reads has to be valid there, and once it opens its target for
writing every other copy of the target is out of date.  Copies move between
memories, and are dropped, at any time.

`Runtime` is that, and `Coherent` says what keeps it honest: all valid copies of a
handle agree, one of them exists, and a running task's operands stay valid where it
runs.  Under it the runtime simulates `Machine`, which knows one content per handle
and no memories; `Step.simulates` is the simulation, and everything proved of
`Machine` is then read off through it.
-/
import Tangor.TaskGraph.Machine
import Mathlib.Data.Set.Insert
import Mathlib.Data.Finset.Range

namespace TaskGraph

variable {H N V : Type*}

/-- The submitted tasks, where they run, and the copies of every handle. -/
structure Runtime (H N V : Type*) where
  init : H → V
  tasks : List (Task H V)
  started : Finset Nat
  finished : Finset Nat
  /-- The memory a started task runs on. -/
  place : Nat → N
  copies : H → N → V
  valid : H → Set N

namespace Runtime

/-- The runtime as a machine whose handles hold `c`. -/
def machine (r : Runtime H N V) (c : H → V) : Machine H V where
  init := r.init
  tasks := r.tasks
  started := r.started
  finished := r.finished
  contents := c

/-- All handles live in the memory `main`, nothing is submitted. -/
def fresh (main : N) (σ : H → V) : Runtime H N V where
  init := σ
  tasks := []
  started := ∅
  finished := ∅
  place := fun _ => main
  copies := fun h _ => σ h
  valid := fun _ => {main}

/-- The submission of one more task. -/
def submit (r : Runtime H N V) (t : Task H V) : Runtime H N V :=
  { r with tasks := r.tasks ++ [t] }

/-- Task `i` is between its start and its finish. -/
def Running (r : Runtime H N V) (i : Nat) : Prop := i ∈ r.started ∧ i ∉ r.finished

/-- Every submitted task that writes `h` has finished. -/
def WritersDone (r : Runtime H N V) (h : H) : Prop :=
  ∀ j t, r.tasks[j]? = some t → t.target = h → j ∈ r.finished

/-- Two conflicting tasks never run at the same time. -/
theorem no_conflict {r : Runtime H N V} {c : H → V} (hi : (r.machine c).Ordered) {i j : Nat}
    {t u : Task H V} (ht : r.tasks[i]? = some t) (hu : r.tasks[j]? = some u) (hne : i ≠ j)
    (hri : r.Running i) (hrj : r.Running j) : ¬ t.Conflict u := by
  intro hc
  rcases Nat.lt_or_gt_of_ne hne with hlt | hgt
  · exact hri.2 (hi.order j u hrj.1 hu i t hlt ht hc)
  · exact hrj.2 (hi.order i t hri.1 ht j u hgt hu hc.symm)

/-- The valid copies of every handle hold `c`, and running tasks find their operands. -/
structure Coherent (r : Runtime H N V) (c : H → V) : Prop where
  agree : ∀ h n, n ∈ r.valid h → r.copies h n = c h
  someValid : ∀ h, (r.valid h).Nonempty
  pinned : ∀ i t, r.Running i → r.tasks[i]? = some t → ∀ h ∈ t.operands, r.place i ∈ r.valid h

theorem Coherent.submit {r : Runtime H N V} {c : H → V} (hi : (r.machine c).Ordered)
    (hc : r.Coherent c) (t : Task H V) : (r.submit t).Coherent c := by
  refine ⟨hc.agree, hc.someValid, ?_⟩
  intro i u hrun hu h hh
  refine hc.pinned i u hrun ?_ h hh
  rcases Machine.getElem?_submit (s := r.machine c) hu with hold | ⟨heq, -⟩
  · exact hold
  · exact absurd (hi.bound i hrun.1) (by rw [heq]; exact Nat.lt_irrefl _)

variable [DecidableEq H]

/-- Give up the copy of `h` on `n`. -/
def evict (r : Runtime H N V) (h : H) (n : N) : Runtime H N V :=
  { r with valid := Function.update r.valid h (r.valid h \ {n}) }

/-- What every reachable runtime satisfies. -/
def OK (r : Runtime H N V) : Prop := ∃ c, (r.machine c).Inv ∧ r.Coherent c

theorem ok_fresh (main : N) (σ : H → V) : OK (fresh main σ) := by
  refine ⟨σ, Machine.inv_fresh σ, ⟨?_, ?_, ?_⟩⟩
  · intro h n _
    rfl
  · intro h
    exact Set.singleton_nonempty main
  · intro i t hrun
    exact absurd hrun.1 (Finset.notMem_empty i)

theorem Coherent.evict {r : Runtime H N V} {c : H → V} (hc : r.Coherent c) {h : H} {n : N}
    (hother : ∃ m ∈ r.valid h, m ≠ n)
    (hidle : ∀ i t, r.Running i → r.tasks[i]? = some t → h ∈ t.operands → r.place i ≠ n) :
    (r.evict h n).Coherent c := by
  refine ⟨?_, ?_, ?_⟩
  · intro x p hp
    refine hc.agree x p ?_
    by_cases hx : x = h
    · subst hx
      exact (show p ∈ r.valid x \ {n} by simpa [Runtime.evict] using hp).1
    · simpa [Runtime.evict, Function.update_of_ne hx] using hp
  · intro x
    by_cases hx : x = h
    · subst hx
      obtain ⟨m, hm, hne⟩ := hother
      exact ⟨m, by simp [Runtime.evict, hm, hne]⟩
    · simpa [Runtime.evict, Function.update_of_ne hx] using hc.someValid x
  · intro i t hrun ht x hx
    have hpin := hc.pinned i t hrun ht x hx
    by_cases hxh : x = h
    · subst hxh
      have hne := hidle i t hrun ht hx
      simpa [Runtime.evict] using And.intro hpin hne
    · simpa [Runtime.evict, Function.update_of_ne hxh] using hpin

theorem OK.submit {r : Runtime H N V} (hok : r.OK) {t : Task H V} (ht : t.Separate) :
    (r.submit t).OK := by
  obtain ⟨c, hi, hc⟩ := hok
  exact ⟨c, hi.submit ht, hc.submit hi.toOrdered t⟩

/-- **Every valid copy of a handle whose writers have finished holds what the
submission order computes.** -/
theorem OK.copy_eq {r : Runtime H N V} (hok : r.OK) {h : H} (hdone : r.WritersDone h) {n : N}
    (hn : n ∈ r.valid h) : r.copies h n = runAll r.tasks r.init h := by
  obtain ⟨c, hi, hc⟩ := hok
  rw [hc.agree h n hn]
  exact hi.contents_eq hdone

theorem OK.sub {r : Runtime H N V} (hok : r.OK) : r.finished ⊆ r.started := by
  obtain ⟨c, hinv, -⟩ := hok
  exact hinv.sub

/-! ### The copy a host reads -/

/-- The writers of `h` are done and the copy on `main` has what they leave. -/
structure UpToDate (r : Runtime H N V) (main : N) (h : H) : Prop where
  done : r.WritersDone h
  copy : r.copies h main = runAll r.tasks r.init h

/-- Bringing the content of a finished handle to `main` makes the copy there up to date. -/
theorem OK.upToDate {r : Runtime H N V} (hok : r.OK) {main : N} {h : H}
    (hdone : r.WritersDone h) (hmain : main ∈ r.valid h) : r.UpToDate main h :=
  ⟨hdone, hok.copy_eq hdone hmain⟩

/-! ### The steps -/

variable [DecidableEq N]

/-- A handle no submitted task opens starts to describe a buffer of the memory `main`. -/
def register (r : Runtime H N V) (main : N) (h : H) (v : V) : Runtime H N V :=
  { r with
    init := Function.update r.init h v
    copies := Function.update r.copies h (Function.update (r.copies h) main v)
    valid := Function.update r.valid h {main} }

/-- Write `v` into the copy of `h` on `n`, and make it the only valid one. -/
def overwrite (r : Runtime H N V) (h : H) (n : N) (v : V) : Runtime H N V :=
  { r with
    copies := Function.update r.copies h (Function.update (r.copies h) n v)
    valid := Function.update r.valid h {n} }

/-- Copy the content of `h` from `m` to `n`. -/
def transfer (r : Runtime H N V) (h : H) (m n : N) : Runtime H N V :=
  { r with
    copies := Function.update r.copies h (Function.update (r.copies h) n (r.copies h m))
    valid := Function.update r.valid h (insert n (r.valid h)) }

/-- Task `i` starts on `n`; a target it replaces holds `junk` there from now on. -/
def start (r : Runtime H N V) (i : Nat) (t : Task H V) (n : N) (junk : V) : Runtime H N V :=
  { r.overwrite t.target n (if t.update then r.copies t.target n else junk) with
    started := insert i r.started
    place := Function.update r.place i n }

/-- Task `i` finishes on the memory it was started on. -/
def finish (r : Runtime H N V) (i : Nat) (t : Task H V) : Runtime H N V :=
  { r.overwrite t.target (r.place i) (t.fn (t.operands.map fun h => r.copies h (r.place i))) with
    finished := insert i r.finished }

/-- What the workers and the memories do on their own. -/
inductive Step : Runtime H N V → Runtime H N V → Prop
  | transfer (r : Runtime H N V) (h : H) (m n : N) (hm : m ∈ r.valid h) :
      Step r (r.transfer h m n)
  | evict (r : Runtime H N V) (h : H) (n : N) (hother : ∃ m ∈ r.valid h, m ≠ n)
      (hidle : ∀ i t, r.Running i → r.tasks[i]? = some t → h ∈ t.operands → r.place i ≠ n) :
      Step r (r.evict h n)
  | start (r : Runtime H N V) (i : Nat) (t : Task H V) (n : N) (junk : V)
      (ht : r.tasks[i]? = some t) (hnew : i ∉ r.started)
      (hready : ∀ j u, j < i → r.tasks[j]? = some u → u.Conflict t → j ∈ r.finished)
      (hhere : ∀ h ∈ t.operands, n ∈ r.valid h) : Step r (r.start i t n junk)
  | finish (r : Runtime H N V) (i : Nat) (t : Task H V) (ht : r.tasks[i]? = some t)
      (hrun : r.Running i) : Step r (r.finish i t)

/-! ### The simulation -/

/-- The copies after a write to one of them. -/
theorem copies_overwrite (r : Runtime H N V) (h : H) (n : N) (v : V) {x : H} (hx : x ≠ h)
    (m : N) : (r.overwrite h n v).copies x m = r.copies x m := by
  simp [overwrite, Function.update_of_ne hx]

theorem valid_overwrite (r : Runtime H N V) (h : H) (n : N) (v : V) {x : H} (hx : x ≠ h) :
    (r.overwrite h n v).valid x = r.valid x := by
  simp [overwrite, Function.update_of_ne hx]

@[simp] theorem copies_overwrite_self (r : Runtime H N V) (h : H) (n : N) (v : V) :
    (r.overwrite h n v).copies h n = v := by
  simp [overwrite]

@[simp] theorem valid_overwrite_self (r : Runtime H N V) (h : H) (n : N) (v : V) :
    (r.overwrite h n v).valid h = {n} := by
  simp [overwrite]

/-- Overwriting one handle changes one content. -/
theorem agree_overwrite {r : Runtime H N V} {c : H → V}
    (hc : ∀ h n, n ∈ r.valid h → r.copies h n = c h) (h : H) (n : N) (v : V) :
    ∀ x m, m ∈ (r.overwrite h n v).valid x →
      (r.overwrite h n v).copies x m = Function.update c h v x := by
  intro x m hm
  by_cases hx : x = h
  · subst hx
    rw [valid_overwrite_self, Set.mem_singleton_iff] at hm
    rw [hm, copies_overwrite_self, Function.update_self]
  · rw [valid_overwrite r h n v hx] at hm
    rw [copies_overwrite r h n v hx, Function.update_of_ne hx]
    exact hc x m hm

theorem someValid_overwrite {r : Runtime H N V} (hs : ∀ h, (r.valid h).Nonempty) (h : H) (n : N)
    (v : V) : ∀ x, ((r.overwrite h n v).valid x).Nonempty := by
  intro x
  by_cases hx : x = h
  · subst hx
    rw [valid_overwrite_self]
    exact Set.singleton_nonempty n
  · rw [valid_overwrite r h n v hx]
    exact hs x

theorem Coherent.transfer {r : Runtime H N V} {c : H → V} (hc : r.Coherent c) {h : H} {m : N}
    (n : N) (hm : m ∈ r.valid h) : (r.transfer h m n).Coherent c := by
  have hvalid : ∀ x, r.valid x ⊆ (r.transfer h m n).valid x := by
    intro x
    by_cases hx : x = h
    · subst hx
      simp [Runtime.transfer]
    · simp [Runtime.transfer, Function.update_of_ne hx]
  refine ⟨?_, ?_, ?_⟩
  · intro x p hp
    by_cases hx : x = h
    · subst hx
      by_cases hpn : p = n
      · subst hpn
        simpa [Runtime.transfer] using hc.agree x m hm
      · have hpv : p ∈ r.valid x := by simpa [Runtime.transfer, hpn] using hp
        simpa [Runtime.transfer, Function.update_of_ne hpn] using hc.agree x p hpv
    · have hpv : p ∈ r.valid x := by simpa [Runtime.transfer, Function.update_of_ne hx] using hp
      simpa [Runtime.transfer, Function.update_of_ne hx] using hc.agree x p hpv
  · intro x
    exact (hc.someValid x).mono (hvalid x)
  · intro i t hrun ht x hx
    exact hvalid x (hc.pinned i t hrun ht x hx)

/-- A handle no running task depends on can be given another content. -/
theorem Coherent.overwrite {r : Runtime H N V} {c : H → V} (hc : r.Coherent c) {h : H} (n : N)
    (v : V) (hidle : ∀ i t, r.Running i → r.tasks[i]? = some t → h ∉ t.operands) :
    (r.overwrite h n v).Coherent (Function.update c h v) := by
  refine ⟨agree_overwrite hc.agree h n v, someValid_overwrite hc.someValid h n v, ?_⟩
  intro i t hrun ht x hx
  have hxh : x ≠ h := by
    rintro rfl
    exact hidle i t hrun ht hx
  show r.place i ∈ (r.overwrite h n v).valid x
  rw [valid_overwrite r h n v hxh]
  exact hc.pinned i t hrun ht x hx

theorem Coherent.register {r : Runtime H N V} {c : H → V} (hc : r.Coherent c) (main : N) {h : H}
    (v : V) (hfresh : ∀ t ∈ r.tasks, h ∉ t.handles) :
    (r.register main h v).Coherent (Function.update c h v) := by
  have hover := hc.overwrite main v fun i t _ ht hh =>
    hfresh t (List.mem_of_getElem? ht) (Task.operands_subset hh)
  exact ⟨hover.agree, hover.someValid, hover.pinned⟩

theorem Coherent.start {r : Runtime H N V} {c : H → V} (hi : (r.machine c).Ordered)
    (hc : r.Coherent c) {i : Nat} {t : Task H V} {n : N} (junk : V) (ht : r.tasks[i]? = some t)
    (hnew : i ∉ r.started)
    (hready : ∀ j u, j < i → r.tasks[j]? = some u → u.Conflict t → j ∈ r.finished)
    (hhere : ∀ h ∈ t.operands, n ∈ r.valid h) :
    (r.start i t n junk).Coherent (if t.update then c else Function.update c t.target junk) := by
  set v := if t.update then r.copies t.target n else junk with hv
  have hcontent : (if t.update then c else Function.update c t.target junk)
      = Function.update c t.target v := by
    cases hup : t.update with
    | true =>
        -- An updated target is one of the operands, so its copy here is the content.
        have hmem : t.target ∈ t.operands := by simp [Task.operands, hup]
        have hval : r.copies t.target n = c t.target := hc.agree _ _ (hhere _ hmem)
        simp [hv, hup, hval]
    | false => simp [hv, hup]
  rw [hcontent]
  refine ⟨agree_overwrite hc.agree t.target n v, someValid_overwrite hc.someValid t.target n v, ?_⟩
  intro j u hrun hu x hx
  show Function.update r.place i n j ∈ (r.overwrite t.target n v).valid x
  by_cases hji : j = i
  · subst hji
    rw [show r.tasks[j]? = some u from hu, Option.some.injEq] at ht
    subst ht
    rw [Function.update_self]
    by_cases hxt : x = u.target
    · rw [hxt, valid_overwrite_self]
      exact Set.mem_singleton n
    · rw [valid_overwrite r _ n v hxt]
      exact hhere x hx
  · have hst : j ∈ r.started := (Finset.mem_insert.mp hrun.1).resolve_left hji
    have hrunj : r.Running j := ⟨hst, hrun.2⟩
    rw [Function.update_of_ne hji]
    -- Writing an operand of a running task would be a conflict with it.
    have hxt : x ≠ t.target := by
      rintro rfl
      have hconf : u.Conflict t := Or.inr (Task.operands_subset hx)
      rcases Nat.lt_or_gt_of_ne hji with hlt | hgt
      · exact hrun.2 (hready j u hlt hu hconf)
      · exact hnew (hi.sub (hi.order j u hst hu i t hgt ht hconf.symm))
    rw [valid_overwrite r _ n v hxt]
    exact hc.pinned j u hrunj hu x hx

theorem Coherent.finish {r : Runtime H N V} {c : H → V} (hi : (r.machine c).Ordered)
    (hc : r.Coherent c) {i : Nat} {t : Task H V} (ht : r.tasks[i]? = some t)
    (hrun : r.Running i) : (r.finish i t).Coherent (t.apply c) := by
  have hargs : (t.operands.map fun h => r.copies h (r.place i)) = t.operands.map c :=
    List.map_congr_left fun h hh => hc.agree h _ (hc.pinned i t hrun ht h hh)
  set v := t.fn (t.operands.map fun h => r.copies h (r.place i)) with hv
  have happly : t.apply c = Function.update c t.target v := by
    rw [hv, hargs]
    rfl
  rw [happly]
  refine ⟨agree_overwrite hc.agree t.target _ v, someValid_overwrite hc.someValid t.target _ v, ?_⟩
  intro j u hrunj hu x hx
  show r.place j ∈ (r.overwrite t.target (r.place i) v).valid x
  have hji : j ≠ i := by
    rintro rfl
    exact hrunj.2 (Finset.mem_insert_self j r.finished)
  have hold : r.Running j :=
    ⟨hrunj.1, fun hfin => hrunj.2 (Finset.mem_insert_of_mem hfin)⟩
  have hxt : x ≠ t.target := by
    rintro rfl
    exact no_conflict hi ht hu hji.symm hrun hold (Or.inl (Task.operands_subset hx))
  rw [valid_overwrite r _ _ v hxt]
  exact hc.pinned j u hold hu x hx

/-- **The replicated runtime simulates the machine with one content per handle**:
moving copies changes nothing, and starts and finishes are the machine's own. -/
theorem Step.simulates {r r' : Runtime H N V} {c : H → V} (hi : (r.machine c).Ordered)
    (hc : r.Coherent c) (h : Step r r') :
    ∃ c', (r'.machine c' = r.machine c ∨ Machine.Step (r.machine c) (r'.machine c')) ∧
      r'.Coherent c' := by
  cases h with
  | transfer h m n hm => exact ⟨c, Or.inl rfl, hc.transfer n hm⟩
  | evict h n hother hidle => exact ⟨c, Or.inl rfl, hc.evict hother hidle⟩
  | start i t n junk ht hnew hready hhere =>
      exact ⟨_, Or.inr (Machine.Step.start (r.machine c) i t junk ht hnew hready),
        Coherent.start hi hc junk ht hnew hready hhere⟩
  | finish i t ht hrun =>
      exact ⟨_, Or.inr (Machine.Step.finish (r.machine c) i t ht hrun.1 hrun.2),
        Coherent.finish hi hc ht hrun⟩

/-! ### The invariant of a run -/

theorem OK.step {r r' : Runtime H N V} (hok : r.OK) (h : Step r r') : r'.OK := by
  obtain ⟨c, hi, hc⟩ := hok
  obtain ⟨c', hsim, hc'⟩ := h.simulates hi.toOrdered hc
  rcases hsim with heq | hstep
  · exact ⟨c', heq ▸ hi, hc'⟩
  · exact ⟨c', hi.step hstep, hc'⟩

theorem OK.register {r : Runtime H N V} (hok : r.OK) (main : N) {h : H} (v : V)
    (hfresh : ∀ t ∈ r.tasks, h ∉ t.handles) : (r.register main h v).OK := by
  obtain ⟨c, hi, hc⟩ := hok
  exact ⟨Function.update c h v, hi.register v hfresh, hc.register main v hfresh⟩

/-! ### What a worker's step leaves alone -/

theorem Step.tasks_eq {r r' : Runtime H N V} (h : Step r r') : r'.tasks = r.tasks := by
  cases h <;> rfl

theorem Step.init_eq {r r' : Runtime H N V} (h : Step r r') : r'.init = r.init := by
  cases h <;> rfl

theorem Step.finished_subset {r r' : Runtime H N V} (h : Step r r') :
    r.finished ⊆ r'.finished := by
  cases h with
  | transfer | evict | start => exact Finset.Subset.refl _
  | finish i t ht hrun => exact Finset.subset_insert i r.finished

/-- A worker starts tasks that have been submitted. -/
theorem Step.started_lt {r r' : Runtime H N V} (h : Step r r') {i : Nat} (hi : i ∈ r'.started) :
    i ∈ r.started ∨ i ∉ r.started ∧ i < r.tasks.length := by
  cases h with
  | transfer | evict | finish => exact Or.inl hi
  | start j t n junk ht hnew hready hhere =>
      rcases Finset.mem_insert.mp hi with rfl | hi
      · exact Or.inr ⟨hnew, (List.getElem?_eq_some_iff.mp ht).1⟩
      · exact Or.inl hi

/-- A worker finishes tasks that have been started. -/
theorem Step.sub {r r' : Runtime H N V} (h : Step r r') (hsub : r.finished ⊆ r.started) :
    r'.finished ⊆ r'.started := by
  cases h with
  | transfer | evict => exact hsub
  | start i t n junk => exact hsub.trans (Finset.subset_insert i r.started)
  | finish i t ht hrun => exact Finset.insert_subset hrun.1 hsub

/-! ### An up-to-date copy stays so -/

/-- No step of a worker touches an up-to-date copy. -/
theorem UpToDate.step {r r' : Runtime H N V} {main : N} {h : H} (hok : r.OK)
    (hup : r.UpToDate main h) (hstep : Step r r') : r'.UpToDate main h := by
  have hdone : r'.WritersDone h := by
    intro j t ht htgt
    rw [hstep.tasks_eq] at ht
    exact hstep.finished_subset (hup.done j t ht htgt)
  refine ⟨hdone, ?_⟩
  rw [hstep.tasks_eq, hstep.init_eq, ← hup.copy]
  cases hstep with
  | transfer x m n hm =>
      by_cases hx : h = x
      · subst hx
        by_cases hn : main = n
        · subst hn
          have hval : r.copies h m = r.copies h main :=
            (hok.copy_eq hup.done hm).trans hup.copy.symm
          simpa [Runtime.transfer] using hval
        · simp [Runtime.transfer, Function.update_of_ne hn]
      · simp [Runtime.transfer, Function.update_of_ne hx]
  | evict x n hother hidle => rfl
  | start i t n junk ht hnew hready hhere =>
      have hx : h ≠ t.target := by
        rintro rfl
        exact hnew (hok.sub (hup.done i t ht rfl))
      exact copies_overwrite r t.target n _ hx main
  | finish i t ht hrun =>
      have hx : h ≠ t.target := by
        rintro rfl
        exact hrun.2 (hup.done i t ht rfl)
      exact copies_overwrite r t.target _ _ hx main

/-! ### A run exists -/

/-- One memory and one worker, and the first `k` tasks are done. -/
structure Serial (r : Runtime H N V) (main : N) (k : Nat) : Prop where
  started : r.started = Finset.range k
  finished : r.finished = Finset.range k
  here : ∀ h, main ∈ r.valid h

/-- The next task can be run from start to finish. -/
theorem Serial.next {r : Runtime H N V} {main : N} {k : Nat} (hs : r.Serial main k)
    {t : Task H V} (ht : r.tasks[k]? = some t) :
    ∃ r', Relation.ReflTransGen Step r r' ∧ r'.Serial main (k + 1) ∧ r'.tasks = r.tasks ∧
      r'.init = r.init := by
  have hnew : k ∉ r.started := by simp [hs.started]
  have hstart : Step r (r.start k t main (r.init t.target)) := by
    refine Step.start r k t main _ ht hnew ?_ fun h _ => hs.here h
    intro j u hjk _ _
    simpa [hs.finished] using hjk
  have hrun : (r.start k t main (r.init t.target)).Running k :=
    ⟨Finset.mem_insert_self k r.started, by simp [Runtime.start, overwrite, hs.finished]⟩
  have hfinish := Step.finish (r.start k t main (r.init t.target)) k t ht hrun
  refine ⟨_, (Relation.ReflTransGen.single hstart).tail hfinish, ⟨?_, ?_, ?_⟩, rfl, rfl⟩
  · show insert k r.started = Finset.range (k + 1)
    rw [hs.started, Finset.range_add_one]
  · show insert k r.finished = Finset.range (k + 1)
    rw [hs.finished, Finset.range_add_one]
  · intro h
    by_cases hh : h = t.target
    · simp [hh, Runtime.finish, Runtime.start, overwrite]
    · simpa [Runtime.finish, Runtime.start, overwrite, Function.update_of_ne hh] using hs.here h

/-- **The submission order is itself a schedule**: one worker can run everything. -/
theorem Serial.complete {r : Runtime H N V} {main : N} {k : Nat} (hs : r.Serial main k)
    (hk : k ≤ r.tasks.length) :
    ∃ r', Relation.ReflTransGen Step r r' ∧ r'.Serial main r.tasks.length ∧
      r'.tasks = r.tasks ∧ r'.init = r.init := by
  induction hd : r.tasks.length - k generalizing r k with
  | zero =>
      have hkl : k = r.tasks.length := by omega
      exact ⟨r, Relation.ReflTransGen.refl, hkl ▸ hs, rfl, rfl⟩
  | succ d ih =>
      have hlt : k < r.tasks.length := by omega
      obtain ⟨r₁, hrun₁, hs₁, htasks₁, hinit₁⟩ := hs.next (List.getElem?_eq_getElem hlt)
      obtain ⟨r₂, hrun₂, hs₂, htasks₂, hinit₂⟩ :=
        ih hs₁ (by rw [htasks₁]; exact hlt) (by rw [htasks₁]; omega)
      rw [htasks₁] at hs₂ htasks₂
      exact ⟨r₂, hrun₁.trans hrun₂, hs₂, htasks₂, hinit₂.trans hinit₁⟩

end Runtime

/-- A run to a state with `P` is built from its first step on. -/
theorem reach_head {α : Type*} {r : α → α → Prop} {P : α → Prop} {a b : α} (h : r a b)
    (hb : ∃ c, Relation.ReflTransGen r b c ∧ P c) : ∃ c, Relation.ReflTransGen r a c ∧ P c := by
  obtain ⟨c, hrun, hc⟩ := hb
  exact ⟨c, hrun.head h, hc⟩

end TaskGraph
