/-
Host writes the runtime has not been told about.

A host that owns the buffer behind a handle can simply store into it.  The runtime
does not notice: the copy in main memory changes and the set of valid copies does not.
Only when the host acquires the handle for writing afterwards does the runtime take
the content of main memory for the valid one.

In between, the runtime is `patch`ed: with the content it believes in put back into the
copies of such a handle, it is a runtime nothing has happened to.  `Step.patch` is the
simulation; it needs that no task opens the handle meanwhile.

`Keeps` is what the write is for.  From the moment the host has written `v`, and until a
task submitted later changes the handle, `v` is in main memory, and once announced it is
in every valid copy.
-/
import Tangor.TaskGraph.Host

namespace TaskGraph

variable {H N V : Type*}

namespace Runtime

/-- Every submitted task that opens `h` has finished. -/
def Idle (r : Runtime H N V) (h : H) : Prop :=
  ∀ i t, r.tasks[i]? = some t → h ∈ t.handles → i ∈ r.finished

/-! ### Copies that are not valid -/

/-- The runtimes differ at most in copies that are not valid. -/
structure Alike (r r' : Runtime H N V) : Prop where
  tasks : r'.tasks = r.tasks
  started : r'.started = r.started
  finished : r'.finished = r.finished
  place : r'.place = r.place
  valid : r'.valid = r.valid
  copies : ∀ h, ∀ n ∈ r.valid h, r'.copies h n = r.copies h n

/-- Nothing that is known of a runtime depends on a copy that is not valid. -/
theorem Coherent.congr {r r' : Runtime H N V} {c : H → V} (hc : r.Coherent c)
    (h : r.Alike r') : r'.Coherent c := by
  refine ⟨?_, ?_, ?_⟩
  · intro x n hn
    rw [h.valid] at hn
    rw [h.copies x n hn, hc.agree x n hn]
  · rw [h.valid]
    exact hc.someValid
  · intro i t hrun ht x hx
    unfold Running at hrun
    rw [h.started, h.finished] at hrun
    rw [h.tasks] at ht
    rw [h.place, h.valid]
    exact hc.pinned i t hrun ht x hx

theorem Sound.congr {r r' : Runtime H N V} (hr : r.Sound) (h : r.Alike r') : r'.Sound := by
  obtain ⟨c, ho, hc⟩ := hr
  have hmachine : r'.machine c = { r.machine c with init := r'.init } := by
    simp [machine, h.tasks, h.started, h.finished]
  refine ⟨c, ?_, hc.congr h⟩
  rw [hmachine]
  exact ⟨ho.bound, ho.sub, ho.order⟩

/-- The valid copies of a handle hold one content. -/
theorem Sound.agreed {r : Runtime H N V} (hr : r.Sound) (h : H) :
    ∃ w, ∀ n ∈ r.valid h, r.copies h n = w := by
  obtain ⟨c, -, hc⟩ := hr
  exact ⟨c h, hc.agree h⟩

/-- The runtime as if its handles had held `ι` at first. -/
def withInit (r : Runtime H N V) (ι : H → V) : Runtime H N V := { r with init := ι }

/-! ### Writes behind the runtime's back -/

/-- The copies of the handles in `shadow` are what it says. -/
def patch (r : Runtime H N V) (shadow : H → Option V) : Runtime H N V :=
  { r with copies := fun h n => (shadow h).getD (r.copies h n) }

@[simp] theorem patch_none (r : Runtime H N V) : r.patch (fun _ => none) = r := rfl

theorem patch_copies {r : Runtime H N V} {shadow : H → Option V} {h : H} (hh : shadow h = none)
    (n : N) : (r.patch shadow).copies h n = r.copies h n := by
  simp [patch, hh]

theorem current_patch {r : Runtime H N V} {shadow : H → Option V} {main : N} {h : H}
    (hh : shadow h = none) : (r.patch shadow).Current main h ↔ r.Current main h := by
  refine ⟨fun hcur => ⟨hcur.done, fun n hn => ?_⟩, fun hcur => ⟨hcur.done, fun n hn => ?_⟩⟩
  · have := hcur.copy n hn
    rwa [patch_copies hh, patch_copies hh] at this
  · rw [patch_copies hh, patch_copies hh]
    exact hcur.copy n hn

/-! ### What a host write keeps -/

/-- No task from the `k`-th on has changed `h`. -/
def Untouched (r : Runtime H N V) (h : H) (k : Nat) : Prop :=
  ∀ j t, r.tasks[j]? = some t → t.target = h → k ≤ j →
    j ∉ r.finished ∧ (j ∈ r.started → t.update = true)

/-- The host wrote `v` into `h` when there were `k` tasks. -/
structure Keeps (r : Runtime H N V) (main : N) (h : H) (v : V) (k : Nat) : Prop where
  bound : k ≤ r.tasks.length
  before : ∀ j t, r.tasks[j]? = some t → h ∈ t.handles → j < k → j ∈ r.finished
  here : r.Untouched h k → r.copies h main = v

/-- The write has been announced: it is in every valid copy. -/
def Announced (r : Runtime H N V) (h : H) (v : V) (k : Nat) : Prop :=
  r.Untouched h k → ∀ n ∈ r.valid h, r.copies h n = v

/-- What a later runtime has not touched was not touched before. -/
theorem Untouched.of_later {r r' : Runtime H N V} {h : H} {k : Nat} (hu : r'.Untouched h k)
    (htasks : ∀ (j : Nat) (t : Task H V), r.tasks[j]? = some t → r'.tasks[j]? = some t)
    (hstarted : r.started ⊆ r'.started) (hfinished : r.finished ⊆ r'.finished) :
    r.Untouched h k := by
  intro j t ht htgt hkj
  obtain ⟨hnot, hup⟩ := hu j t (htasks j t ht) htgt hkj
  exact ⟨fun hmem => hnot (hfinished hmem), fun hmem => hup (hstarted hmem)⟩

/-- A write stays kept as long as the copy in main memory does. -/
theorem Keeps.later {r r' : Runtime H N V} {main : N} {h : H} {v : V} {k : Nat}
    (hk : r.Keeps main h v k) (htasks : r'.tasks = r.tasks) (hstarted : r.started ⊆ r'.started)
    (hfinished : r.finished ⊆ r'.finished) (hcopy : r'.copies h main = r.copies h main) :
    r'.Keeps main h v k where
  bound := by rw [htasks]; exact hk.bound
  before := by
    intro j t ht hh hjk
    rw [htasks] at ht
    exact hfinished (hk.before j t ht hh hjk)
  here := by
    intro hu
    rw [hcopy]
    refine hk.here (hu.of_later ?_ hstarted hfinished)
    intro j t ht
    rw [htasks]
    exact ht

theorem Keeps.submit {r : Runtime H N V} {main : N} {h : H} {v : V} {k : Nat}
    (hk : r.Keeps main h v k) (t : Task H V) : (r.submit t).Keeps main h v k where
  bound := Nat.le_trans hk.bound (by simp [Runtime.submit])
  before := by
    intro j u hu hh hjk
    rcases Machine.getElem?_submit (s := r.machine fun _ => r.init h) hu with hold | ⟨heq, -⟩
    · exact hk.before j u hold hh hjk
    · exact absurd (heq ▸ hjk) (Nat.not_lt.mpr hk.bound)
  here := fun hu => hk.here (hu.of_later (fun _ _ ht => Machine.getElem?_submit_old
    (s := r.machine fun _ => r.init h) t ht) (Finset.Subset.refl _) (Finset.Subset.refl _))

theorem Announced.submit {r : Runtime H N V} {h : H} {v : V} {k : Nat}
    (ha : r.Announced h v k) (t : Task H V) : (r.submit t).Announced h v k :=
  fun hu => ha (hu.of_later (fun _ _ ht => Machine.getElem?_submit_old
    (s := r.machine fun x => r.init x) t ht) (Finset.Subset.refl _) (Finset.Subset.refl _))

/-- As long as a reader of `h` runs, no task behind it has touched `h`. -/
theorem Sound.untouched {r : Runtime H N V} (hr : r.Sound) {h : H} {k i : Nat} {t : Task H V}
    (hrun : r.Running i) (ht : r.tasks[i]? = some t) (hh : h ∈ t.handles)
    (hself : t.target = h → t.update = true)
    (hbetween : ∀ j u, r.tasks[j]? = some u → k ≤ j → j < i → u.target ≠ h) :
    r.Untouched h k := by
  intro j u hu htgt hkj
  rcases Nat.lt_trichotomy j i with hlt | rfl | hgt
  · exact absurd htgt (hbetween j u hu hkj hlt)
  · rw [ht, Option.some.injEq] at hu
    subst hu
    exact ⟨hrun.2, fun _ => hself htgt⟩
  · have hnew : j ∉ r.started := by
      obtain ⟨c, ho, -⟩ := hr
      intro hstarted
      exact hrun.2 (ho.order j u hstarted hu i t hgt ht
        (Task.conflict_of_target htgt hh).symm)
    exact ⟨fun hmem => hnew (hr.sub hmem), fun hmem => absurd hmem hnew⟩

/-- A running task reads valid copies. -/
theorem Sound.reads_valid {r : Runtime H N V} (hr : r.Sound) {h : H} {i : Nat} {t : Task H V}
    (hrun : r.Running i) (ht : r.tasks[i]? = some t) (hh : h ∈ t.operands) :
    r.place i ∈ r.valid h := by
  obtain ⟨c, -, hc⟩ := hr
  exact hc.pinned i t hrun ht h hh

/-! ### The steps of the workers -/

variable [DecidableEq H]

theorem OK.congr {r r' : Runtime H N V} (hr : r.OK) (h : r.Alike r') (hinit : r'.init = r.init) :
    r'.OK := by
  obtain ⟨c, hi, hc⟩ := hr
  have hmachine : r'.machine c = r.machine c := by
    simp [machine, h.tasks, h.started, h.finished, hinit]
  exact ⟨c, hmachine ▸ hi, hc.congr h⟩

variable [DecidableEq N]

/-- Store `v` into the copy of `h` on `n`, without a word to the runtime. -/
def poke (r : Runtime H N V) (h : H) (n : N) (v : V) : Runtime H N V :=
  { r with copies := Function.update r.copies h (Function.update (r.copies h) n v) }

theorem copies_poke (r : Runtime H N V) (h : H) (n : N) (v : V) {x : H} (hx : x ≠ h) (m : N) :
    (r.poke h n v).copies x m = r.copies x m := by
  simp [poke, Function.update_of_ne hx]

@[simp] theorem copies_poke_self (r : Runtime H N V) (h : H) (n : N) (v : V) :
    (r.poke h n v).copies h n = v := by
  simp [poke]

/-- Storing into another handle leaves `h` as it is. -/
theorem Current.poke {r : Runtime H N V} {main : N} {h : H} (hcur : r.Current main h) {x : H}
    (n : N) (v : V) (hx : h ≠ x) : (r.poke x n v).Current main h := by
  refine ⟨hcur.done, fun p hp => ?_⟩
  rw [copies_poke r x n v hx, copies_poke r x n v hx]
  exact hcur.copy p hp

/-- **A runtime steps the same whatever is written into handles no task opens.** -/
theorem Step.patch {r r' : Runtime H N V} (h : Step r r') {shadow : H → Option V}
    (hsub : r.finished ⊆ r.started) (hidle : ∀ x v, shadow x = some v → r.Idle x) :
    Step (r.patch shadow) (r'.patch shadow) := by
  have hopen : ∀ {i : Nat} {t : Task H V}, r.tasks[i]? = some t → i ∉ r.finished →
      ∀ x ∈ t.handles, shadow x = none := by
    intro i t ht hnot x hx
    cases hshadow : shadow x with
    | none => rfl
    | some v => exact absurd (hidle x v hshadow i t ht hx) hnot
  cases h with
  | transfer x m n hm =>
      have heq : (r.transfer x m n).patch shadow = (r.patch shadow).transfer x m n := by
        unfold Runtime.transfer Runtime.patch
        congr 1
        funext y p
        by_cases hy : y = x
        · subst hy
          by_cases hp : p = n
          · subst hp
            simp
          · simp [Function.update_of_ne hp]
        · simp [Function.update_of_ne hy]
      rw [heq]
      exact Step.transfer (r.patch shadow) x m n hm
  | evict x n hother hidle' => exact Step.evict (r.patch shadow) x n hother hidle'
  | start i t n junk ht hnew hready hhere =>
      have htarget := hopen ht (fun hmem => hnew (hsub hmem)) _ t.target_mem_handles
      have heq : (r.start i t n junk).patch shadow = (r.patch shadow).start i t n junk := by
        unfold Runtime.start Runtime.overwrite Runtime.patch
        congr 1
        funext y p
        by_cases hy : y = t.target
        · subst hy
          simp [htarget]
        · simp [Function.update_of_ne hy]
      rw [heq]
      exact Step.start (r.patch shadow) i t n junk ht hnew hready hhere
  | finish i t ht hrun =>
      have htarget := hopen ht hrun.2 _ t.target_mem_handles
      have hargs : (t.operands.map fun x => (r.patch shadow).copies x (r.place i))
          = t.operands.map fun x => r.copies x (r.place i) :=
        List.map_congr_left fun x hx =>
          patch_copies (hopen ht hrun.2 x (Task.operands_subset hx)) (r.place i)
      have heq : (r.finish i t).patch shadow = (r.patch shadow).finish i t := by
        have hplace : (r.patch shadow).place = r.place := rfl
        unfold Runtime.finish
        rw [hplace, hargs]
        unfold Runtime.overwrite Runtime.patch
        congr 1
        funext y p
        by_cases hy : y = t.target
        · subst hy
          simp [htarget]
        · simp [Function.update_of_ne hy]
      rw [heq]
      exact Step.finish (r.patch shadow) i t ht hrun

/-- After a write the runtime believes in what it believed in. -/
theorem alike_poke (r : Runtime H N V) (shadow : H → Option V) {h : H} {w : V}
    (hw : ∀ p ∈ r.valid h, (r.patch shadow).copies h p = w) (n : N) (v : V) :
    (r.patch shadow).Alike ((r.poke h n v).patch (Function.update shadow h (some w))) := by
  refine ⟨rfl, rfl, rfl, rfl, rfl, ?_⟩
  intro x p hp
  by_cases hx : x = h
  · subst hx
    rw [hw p hp]
    simp [Runtime.patch]
  · simp [Runtime.patch, Function.update_of_ne hx, copies_poke r h n v hx p]

/-- Acquiring the handle for writing announces what is in main memory. -/
theorem alike_announce (r : Runtime H N V) (shadow : H → Option V) (h : H) (main : N) :
    ((r.patch shadow).overwrite h main (r.copies h main)).Alike
      ((r.overwrite h main (r.copies h main)).patch (Function.update shadow h none)) := by
  refine ⟨rfl, rfl, rfl, rfl, rfl, ?_⟩
  intro x p hp
  by_cases hx : x = h
  · subst hx
    rw [valid_overwrite_self, Set.mem_singleton_iff] at hp
    subst hp
    simp [Runtime.patch, Runtime.overwrite]
  · simp [Runtime.patch, Runtime.overwrite, Function.update_of_ne hx]

theorem patch_register {r : Runtime H N V} {shadow : H → Option V} {h : H} (main : N) (v : V)
    (hh : shadow h = none) :
    (r.register main h v).patch shadow = (r.patch shadow).register main h v := by
  unfold Runtime.register Runtime.patch
  congr 1
  funext x p
  by_cases hx : x = h
  · subst hx
    simp [hh]
  · simp [Function.update_of_ne hx]

/-- A runtime steps the same whatever its handles held at first. -/
theorem Step.withInit {r r' : Runtime H N V} (h : Step r r') (ι : H → V) :
    Step (r.withInit ι) (r'.withInit ι) := by
  cases h with
  | transfer x m n hm => exact Step.transfer (r.withInit ι) x m n hm
  | evict x n hother hidle => exact Step.evict (r.withInit ι) x n hother hidle
  | start i t n junk ht hnew hready hhere =>
      exact Step.start (r.withInit ι) i t n junk ht hnew hready hhere
  | finish i t ht hrun => exact Step.finish (r.withInit ι) i t ht hrun

theorem Step.started_subset {r r' : Runtime H N V} (h : Step r r') : r.started ⊆ r'.started := by
  cases h with
  | transfer | evict | finish => exact Finset.Subset.refl _
  | start i t n junk => exact Finset.subset_insert i _

theorem Untouched.of_step {r r' : Runtime H N V} {h : H} {k : Nat} (hu : r'.Untouched h k)
    (hstep : Step r r') : r.Untouched h k := by
  refine hu.of_later ?_ hstep.started_subset hstep.finished_subset
  intro j t ht
  rw [hstep.tasks_eq]
  exact ht

/-- The write itself. -/
theorem Idle.keeps_poke {r : Runtime H N V} {main : N} {h : H} (hi : r.Idle h) (v : V) :
    (r.poke h main v).Keeps main h v r.tasks.length where
  bound := Nat.le_refl _
  before := fun j t ht hh _ => hi j t ht hh
  here := fun _ => copies_poke_self r h main v

/-- The handle is acquired for writing, and main memory has the only valid copy. -/
theorem Keeps.announced {r : Runtime H N V} {main : N} {h : H} {v : V} {k : Nat}
    (hk : r.Keeps main h v k) : (r.overwrite h main (r.copies h main)).Announced h v k := by
  intro hu n hn
  rw [valid_overwrite_self, Set.mem_singleton_iff] at hn
  rw [hn, copies_overwrite_self]
  exact hk.here hu

/-- No step of a worker loses an announced write. -/
theorem Keeps.step {r r' : Runtime H N V} {main : N} {h : H} {v : V} {k : Nat}
    (hk : r.Keeps main h v k) (ha : r.Announced h v k) (hsub : r.finished ⊆ r.started)
    (hstep : Step r r') : r'.Keeps main h v k ∧ r'.Announced h v k := by
  suffices hcopies : r'.Untouched h k →
      r'.copies h main = v ∧ ∀ n ∈ r'.valid h, r'.copies h n = v by
    refine ⟨⟨?_, ?_, fun hu => (hcopies hu).1⟩, fun hu => (hcopies hu).2⟩
    · rw [hstep.tasks_eq]
      exact hk.bound
    · intro j t ht hh hjk
      rw [hstep.tasks_eq] at ht
      exact hstep.finished_subset (hk.before j t ht hh hjk)
  intro hu'
  have hu := hu'.of_step hstep
  have hmain := hk.here hu
  have hvalid := ha hu
  cases hstep with
  | transfer x m n hm =>
      by_cases hx : h = x
      · subst hx
        have hall : ∀ p, p = n ∨ r.copies h p = v →
            Function.update (r.copies h) n (r.copies h m) p = v := by
          intro p hp
          by_cases hpn : p = n
          · rw [hpn, Function.update_self, hvalid m hm]
          · rw [Function.update_of_ne hpn, hp.resolve_left hpn]
        refine ⟨by simpa [Runtime.transfer] using hall main (Or.inr hmain), ?_⟩
        intro p hp
        have hp' : p = n ∨ p ∈ r.valid h := by simpa [Runtime.transfer] using hp
        simpa [Runtime.transfer] using hall p (hp'.imp_right (hvalid p))
      · simpa [Runtime.transfer, Function.update_of_ne hx] using ⟨hmain, hvalid⟩
  | evict x n hother hidle =>
      refine ⟨hmain, fun p hp => hvalid p ?_⟩
      by_cases hx : h = x
      · subst hx
        exact (show p ∈ r.valid h \ {n} by simpa [Runtime.evict] using hp).1
      · simpa [Runtime.evict, Function.update_of_ne hx] using hp
  | start i t n junk ht hnew hready hhere =>
      by_cases hx : h = t.target
      · subst hx
        have hki : k ≤ i := by
          by_contra hlt
          exact hnew (hsub (hk.before i t ht t.target_mem_handles (Nat.lt_of_not_le hlt)))
        have hup : t.update = true :=
          (hu' i t ht rfl hki).2 (Finset.mem_insert_self i r.started)
        -- A task that updates `h` starts from the content it finds.
        have hfound : r.copies t.target n = v :=
          hvalid n (hhere _ (by simp [Task.operands, hup]))
        refine ⟨?_, ?_⟩
        · by_cases hn : main = n
          · subst hn
            simp [Runtime.start, Runtime.overwrite, hup, hfound]
          · simpa [Runtime.start, Runtime.overwrite, Function.update_of_ne hn] using hmain
        · intro p hp
          have hpn : p = n := by simpa [Runtime.start] using hp
          subst hpn
          simp [Runtime.start, Runtime.overwrite, hup, hfound]
      · simpa [Runtime.start, Runtime.overwrite, Function.update_of_ne hx] using ⟨hmain, hvalid⟩
  | finish i t ht hrun =>
      by_cases hx : h = t.target
      · subst hx
        have hki : k ≤ i := by
          by_contra hlt
          exact hrun.2 (hk.before i t ht t.target_mem_handles (Nat.lt_of_not_le hlt))
        exact absurd (Finset.mem_insert_self i r.finished) (hu' i t ht rfl hki).1
      · simpa [Runtime.finish, Runtime.overwrite, Function.update_of_ne hx] using ⟨hmain, hvalid⟩

end Runtime

end TaskGraph
