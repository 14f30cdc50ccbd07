/-
What the objects hold.

`Memory` says that StarPU, patched where the host has written and not announced it, is in
a state its own rules lead to; and that it computes the calls exactly, as long as no
output is an input as well and the host keeps off the objects of the calls.  `Fresh` is
about outputs that have been synchronised, `Kept` about objects the host has written.
Each is kept by every step of `Objects`.
-/
import Tangor.Proofs.Objects

namespace Tangor.Iyokan

open TaskGraph

variable {Key N V : Type} [Inhabited V] {tfhe : TFHE Key V} {main : N}

namespace Objects

/-- The calls are well formed and the host does not interfere with them. -/
structure Exact (o : Objects Key N V) : Prop where
  unaliased : ∀ call ∈ o.submitted, call.Unaliased
  apart : ∀ place ∈ o.written, ∀ call ∈ o.submitted, place ∉ call.places

omit [Inhabited V] in
/-- A call or a host write more does not make it exact. -/
theorem Exact.of_later {o o' : Objects Key N V} (h : o'.Exact)
    (hsubmitted : o.submitted ⊆ o'.submitted) (hwritten : o.written ⊆ o'.written) : o.Exact where
  unaliased := fun call hcall => h.unaliased call (hsubmitted hcall)
  apart := fun place hplace call hcall => h.apart place (hwritten hplace) call (hsubmitted hcall)

/-- Without what `shadow` hides, StarPU is sound, and exact from the contents `σ` on. -/
structure Shadowed (σ : Place → V) (o : Objects Key N V) (shadow : Handle → Option V) : Prop where
  dirty : ∀ h v, shadow h = some v → ∃ place ∈ o.dirty, o.find place = some h
  sound : (o.runtime.patch shadow).Sound
  exact : o.Exact → ∃ ι, ((o.runtime.patch shadow).withInit ι).OK ∧
    ∀ place h, o.find place = some h → place ∉ o.written → ι h = σ place

structure Memory (σ : Place → V) (o : Objects Key N V) : Prop where
  shadowed : ∃ shadow, o.Shadowed σ shadow
  unregistered : ∀ place, o.find place = none → place ∉ o.written → o.memory place = σ place
  idle : ∀ place ∈ o.dirty, o.Untouched place

variable {o o' : Objects Key N V} {σ : Place → V} {shadow : Handle → Option V}

omit [Inhabited V] in
/-- What the host has not touched is not hidden. -/
theorem Shadowed.none (h : o.Shadowed σ shadow) (hunshared : Registry.Unshared o.find)
    {place : Place} {handle : Handle} (hfind : o.find place = some handle)
    (hclean : place ∉ o.dirty) : shadow handle = none := by
  cases hshadow : shadow handle with
  | none => rfl
  | some v =>
      obtain ⟨place', hdirty, hfind'⟩ := h.dirty handle v hshadow
      exact absurd (hunshared place' place handle hfind' hfind ▸ hdirty) hclean

omit [Inhabited V] in
theorem Memory.sub (h : o.Memory σ) : o.runtime.finished ⊆ o.runtime.started := by
  obtain ⟨shadow, hshadow⟩ := h.shadowed
  exact hshadow.sound.sub

omit [Inhabited V] in
/-- The tasks that touch an object are still those, and still finished. -/
theorem Untouched.later {place : Place} (h : o.Untouched place)
    (hsubmitted : o'.submitted = o.submitted)
    (hfinished : o.runtime.finished ⊆ o'.runtime.finished) : o'.Untouched place := by
  intro i call hcall hplace
  rw [hsubmitted] at hcall
  exact hfinished (h i call hcall hplace)

variable [DecidableEq N]

theorem Memory.register (h : o.Memory σ) (hn : o.Names tfhe) {place : Place}
    (hfree : o.find place = none) : (o.register main place).Memory σ := by
  have hold : ∀ {x : Place} {y : Handle}, o.find x = some y →
      (o.register main place).find x = some y := by
    intro x y hx
    have hne : x ≠ place := by
      rintro rfl
      exact absurd (hfree.symm.trans hx) (by simp)
    simpa [Objects.register, Function.update_of_ne hne] using hx
  refine ⟨?_, ?_, fun x hx => (h.idle x hx).later rfl (Finset.Subset.refl _)⟩
  · obtain ⟨shadow, hs⟩ := h.shadowed
    have hnone : shadow o.nextHandle = none := by
      cases hshadow : shadow o.nextHandle with
      | none => rfl
      | some v =>
          obtain ⟨x, -, hx⟩ := hs.dirty _ v hshadow
          exact absurd (hn.bound x _ hx) (Nat.lt_irrefl _)
    have heq := Runtime.patch_register (r := o.runtime) main (o.memory place) hnone
    refine ⟨shadow, ?_, ?_, ?_⟩
    · intro y v hy
      obtain ⟨x, hdirty, hx⟩ := hs.dirty y v hy
      exact ⟨x, hdirty, hold hx⟩
    · show ((o.runtime.register main o.nextHandle (o.memory place)).patch shadow).Sound
      rw [heq]
      exact hs.sound.register main (o.memory place) hn.fresh
    · intro hexact
      obtain ⟨ι, hok, hι⟩ := hs.exact (hexact.of_later (List.Subset.refl _) (List.Subset.refl _))
      refine ⟨Function.update ι o.nextHandle (o.memory place), ?_, ?_⟩
      · show (((o.runtime.register main o.nextHandle (o.memory place)).patch shadow).withInit
          _).OK
        rw [heq]
        exact hok.register main (o.memory place) hn.fresh
      · intro x y hx hwritten
        by_cases hxp : x = place
        · subst hxp
          have hy : o.nextHandle = y := by simpa [Objects.register] using hx
          rw [← hy, Function.update_self]
          exact h.unregistered x hfree hwritten
        · have hx' : o.find x = some y := by
            simpa [Objects.register, Function.update_of_ne hxp] using hx
          rw [Function.update_of_ne (Nat.ne_of_lt (hn.bound x y hx'))]
          exact hι x y hx' hwritten
  · intro x hx hwritten
    by_cases hxp : x = place
    · subst hxp
      exact absurd hx (by simp [Objects.register])
    · exact h.unregistered x (by simpa [Objects.register, Function.update_of_ne hxp] using hx)
        hwritten

omit [Inhabited V] in
theorem Memory.hostWrite (h : o.Memory σ) {place : Place} (hidle : o.Untouched place) (v : V) :
    (o.hostWrite main place v).Memory σ := by
  refine ⟨?_, ?_, ?_⟩
  · obtain ⟨shadow, hs⟩ := h.shadowed
    cases hfind : o.find place with
    | none =>
        refine ⟨shadow, ?_, ?_, ?_⟩
        · intro y w hy
          obtain ⟨x, hdirty, hx⟩ := hs.dirty y w hy
          exact ⟨x, List.mem_cons_of_mem _ hdirty, hx⟩
        · simpa only [Objects.hostWrite, hfind] using hs.sound
        · intro hexact
          obtain ⟨ι, hok, hι⟩ := hs.exact (hexact.of_later (List.Subset.refl _)
            (List.subset_cons_self place o.written))
          refine ⟨ι, by simpa only [Objects.hostWrite, hfind] using hok, fun x y hx hwritten => ?_⟩
          exact hι x y hx fun hmem => hwritten (List.mem_cons_of_mem _ hmem)
    | some handle =>
        obtain ⟨w, hw⟩ := hs.sound.agreed handle
        have halike := Runtime.alike_poke o.runtime shadow hw main v
        refine ⟨Function.update shadow handle (some w), ?_, ?_, ?_⟩
        · intro y u hy
          by_cases hyh : y = handle
          · exact ⟨place, List.mem_cons_self, hyh ▸ hfind⟩
          · rw [Function.update_of_ne hyh] at hy
            obtain ⟨x, hdirty, hx⟩ := hs.dirty y u hy
            exact ⟨x, List.mem_cons_of_mem _ hdirty, hx⟩
        · simpa only [Objects.hostWrite, hfind] using hs.sound.congr halike
        · intro hexact
          obtain ⟨ι, hok, hι⟩ := hs.exact (hexact.of_later (List.Subset.refl _)
            (List.subset_cons_self place o.written))
          refine ⟨ι, ?_, fun x y hx hwritten => ?_⟩
          · have hok' : (((o.runtime.poke handle main v).patch
                (Function.update shadow handle (some w))).withInit ι).OK :=
              hok.congr ⟨rfl, rfl, rfl, rfl, rfl, halike.copies⟩ rfl
            simpa only [Objects.hostWrite, hfind] using hok'
          · exact hι x y hx fun hmem => hwritten (List.mem_cons_of_mem _ hmem)
  · intro x hx hwritten
    have hne : x ≠ place := by
      rintro rfl
      exact hwritten List.mem_cons_self
    have hold := h.unregistered x hx fun hmem => hwritten (List.mem_cons_of_mem _ hmem)
    unfold Objects.hostWrite
    cases o.find place with
    | none => simpa [Function.update_of_ne hne] using hold
    | some handle => exact hold
  · have hfinished : o.runtime.finished ⊆ (o.hostWrite main place v).runtime.finished := by
      unfold Objects.hostWrite
      cases o.find place <;> exact Finset.Subset.refl _
    intro x hx
    rcases List.mem_cons.mp hx with rfl | hx
    · exact hidle.later rfl hfinished
    · exact (h.idle x hx).later rfl hfinished

theorem Memory.announce (h : o.Memory σ) (hn : o.Names tfhe) {place : Place} {handle : Handle}
    {count : Nat} (hfind : o.find place = some handle)
    (hacquired : o.runtime.WriteAcquired handle count) :
    (o.announce main place handle).Memory σ := by
  refine ⟨?_, ?_, ?_⟩
  · obtain ⟨shadow, hs⟩ := h.shadowed
    have halike := Runtime.alike_announce o.runtime shadow handle main
    have hover := hs.sound.overwrite main (o.runtime.copies handle main) (h := handle)
      (b := count) ⟨hacquired.before, hacquired.after⟩
    refine ⟨Function.update shadow handle none, ?_, hover.congr halike, ?_⟩
    · intro y v hy
      by_cases hyh : y = handle
      · rw [hyh, Function.update_self] at hy
        exact absurd hy (by simp)
      · rw [Function.update_of_ne hyh] at hy
        obtain ⟨x, hdirty, hx⟩ := hs.dirty y v hy
        have hne : x ≠ place := by
          rintro rfl
          exact hyh (Option.some.inj (hx.symm.trans hfind))
        exact ⟨x, List.mem_filter.mpr ⟨hdirty, by simpa using hne⟩, hx⟩
    · intro hexact
      obtain ⟨ι, hok, hι⟩ := hs.exact (hexact.of_later (List.Subset.refl _)
        (List.subset_cons_self place o.written))
      -- No call opens the object, so its handle is as good as new.
      have hunopened : ∀ t ∈ o.runtime.tasks, handle ∉ t.handles := by
        intro t ht hh
        obtain ⟨i, hi⟩ := List.getElem?_of_mem ht
        obtain ⟨call, hcall, hplace⟩ := hn.opens hi hfind hh
        exact hexact.apart place List.mem_cons_self call (List.mem_of_getElem? hcall) hplace
      have hreg := hok.register main (o.runtime.copies handle main) hunopened
      refine ⟨Function.update ι handle (o.runtime.copies handle main), ?_, ?_⟩
      · exact hreg.congr ⟨rfl, rfl, rfl, rfl, rfl, halike.copies⟩ rfl
      · intro x y hx hwritten
        have hne : x ≠ place := by
          rintro rfl
          exact hwritten List.mem_cons_self
        rw [Function.update_of_ne (hn.ne hx hfind hne)]
        exact hι x y hx fun hmem => hwritten (List.mem_cons_of_mem _ hmem)
  · intro x hx hwritten
    exact h.unregistered x hx fun hmem => hwritten (List.mem_cons_of_mem _ hmem)
  · intro x hx
    exact (h.idle x (List.mem_of_mem_filter hx)).later rfl (Finset.Subset.refl _)

theorem Memory.step (h : o.Memory σ) (hn : o.Names tfhe) (hstep : Step tfhe main o o') :
    o'.Memory σ := by
  cases hstep with
  | register place hfree => exact h.register hn hfree
  | hostWrite place v hidle => exact h.hostWrite hidle v
  | announce place handle count hfind hacquired => exact h.announce hn hfind hacquired
  | acquire task call handle count hcall hfind hcount hclean hacquired =>
      obtain ⟨shadow, hs⟩ := h.shadowed
      exact ⟨⟨shadow, hs.dirty, hs.sound, fun hexact => hs.exact ⟨hexact.unaliased, hexact.apart⟩⟩,
        h.unregistered, h.idle⟩
  | marked place hfree =>
      obtain ⟨shadow, hs⟩ := h.shadowed
      refine ⟨⟨shadow, ?_, hs.sound, ?_⟩, ?_, ?_⟩
      · intro y v hy
        obtain ⟨x, hdirty, hx⟩ := hs.dirty y v hy
        have hne : x ≠ place := by
          rintro rfl
          exact absurd (hfree.symm.trans hx) (by simp)
        exact ⟨x, List.mem_filter.mpr ⟨hdirty, by simpa using hne⟩, hx⟩
      · intro hexact
        obtain ⟨ι, hok, hι⟩ := hs.exact (hexact.of_later (List.Subset.refl _)
          (List.subset_cons_self place o.written))
        exact ⟨ι, hok, fun x y hx hwritten =>
          hι x y hx fun hmem => hwritten (List.mem_cons_of_mem _ hmem)⟩
      · intro x hx hwritten
        exact h.unregistered x hx fun hmem => hwritten (List.mem_cons_of_mem _ hmem)
      · intro x hx
        exact (h.idle x (List.mem_of_mem_filter hx)).later rfl (Finset.Subset.refl _)
  | submit call target sources htarget hsources hclean =>
      refine ⟨?_, h.unregistered, ?_⟩
      · obtain ⟨shadow, hs⟩ := h.shadowed
        refine ⟨shadow, hs.dirty, hs.sound.submit _, fun hexact => ?_⟩
        obtain ⟨ι, hok, hι⟩ := hs.exact (hexact.of_later (List.subset_append_left _ _)
          (List.Subset.refl _))
        have hnamed : (call.task tfhe).Named o.find (taskOver tfhe call target sources) :=
          ⟨htarget, rfl, List.forall₂_map_left_iff.mpr hsources, rfl⟩
        exact ⟨ι, hok.submit (hnamed.separate hn.unshared
          (task_separate tfhe (hexact.unaliased call (by simp)))), hι⟩
      · intro x hx i c hc hplace
        rcases getElem?_append_singleton hc with hc | ⟨-, rfl⟩
        · exact h.idle x hx i c hc hplace
        · exact absurd hx (hclean x hplace)
  | work r hr hmain =>
      obtain ⟨shadow, hs⟩ := h.shadowed
      have hidle : ∀ x v, shadow x = some v → o.runtime.Idle x := by
        intro x v hx
        obtain ⟨place, hdirty, hfind⟩ := hs.dirty x v hx
        exact hn.idle hfind (h.idle place hdirty)
      have hpatch := hr.patch h.sub hidle
      refine ⟨⟨shadow, hs.dirty, hs.sound.step hpatch, fun hexact => ?_⟩, h.unregistered, ?_⟩
      · obtain ⟨ι, hok, hι⟩ := hs.exact ⟨hexact.unaliased, hexact.apart⟩
        exact ⟨ι, hok.step (hpatch.withInit ι), hι⟩
      · exact fun x hx => (h.idle x hx).later rfl hr.finished_subset

/-! ### Synchronised outputs -/

/-- No call submitted after the `task`-th writes the object. -/
def LastWriter (o : Objects Key N V) (task : IyokanStarpuTask) (place : Place) : Prop :=
  ∀ j call, o.submitted[j]? = some call → task < j → call.output ≠ place

/-- The output of a synchronised token is in main memory until another call writes it. -/
structure Fresh (main : N) (o : Objects Key N V) (task : IyokanStarpuTask)
    (call : GateCall Key) : Prop where
  finished : task ∈ o.runtime.finished
  clean : call.output ∉ o.dirty
  found : ∃ handle, o.find call.output = some handle
  current : o.LastWriter task call.output → ∀ handle, o.find call.output = some handle →
    o.runtime.Current main handle

/-- What a synchronised token stands for. -/
def Synchronized (main : N) (o : Objects Key N V) : Prop :=
  ∀ task ∈ o.synchronized, ∃ call, o.submitted[task]? = some call ∧ o.Fresh main task call

omit [Inhabited V] [DecidableEq N] in
theorem mem_stillSynchronized {task : IyokanStarpuTask} {place : Place} {call : GateCall Key}
    (h : task ∈ o.stillSynchronized place) (hcall : o.submitted[task]? = some call) :
    task ∈ o.synchronized ∧ call.output ≠ place := by
  obtain ⟨hmem, hne⟩ := List.mem_filter.mp h
  refine ⟨hmem, ?_⟩
  rw [hcall] at hne
  simpa using hne

theorem Synchronized.step (h : o.Synchronized main) (hn : o.Names tfhe) (hm : o.Memory σ)
    (hstep : Step tfhe main o o') : o'.Synchronized main := by
  cases hstep with
  | register place hfree =>
      intro task hmem
      obtain ⟨call, hcall, hfresh⟩ := h task hmem
      obtain ⟨handle, hfind⟩ := hfresh.found
      have hne : call.output ≠ place := by
        intro heq
        exact absurd (hfree.symm.trans (heq ▸ hfind)) (by simp)
      have hsame : (o.register main place).find call.output = o.find call.output := by
        simp [Objects.register, Function.update_of_ne hne]
      refine ⟨call, hcall, hfresh.finished, hfresh.clean, ⟨handle, hsame.trans hfind⟩, ?_⟩
      intro hlast handle' hfind'
      rw [hsame] at hfind'
      exact (hfresh.current hlast handle' hfind').register (o.memory place)
        (Nat.ne_of_lt (hn.bound _ _ hfind'))
  | submit call target sources htarget hsources hclean =>
      intro task hmem
      obtain ⟨c, hc, hfresh⟩ := h task hmem
      have hlt := (List.getElem?_eq_some_iff.mp hc).1
      refine ⟨c, (List.getElem?_append_left hlt).trans hc, hfresh.finished, hfresh.clean,
        hfresh.found, ?_⟩
      intro hlast handle hfind
      have hnew : call.output ≠ c.output :=
        hlast o.submitted.length call (by simp) hlt
      refine (hfresh.current (fun j d hd hj => hlast j d ?_ hj) handle hfind).submit
        (hn.ne htarget hfind hnew)
      rw [← hd]
      exact List.getElem?_append_left (List.getElem?_eq_some_iff.mp hd).1
  | acquire task call handle count hcall hfind hcount hclean hacquired =>
      intro task' hmem
      rcases List.mem_cons.mp hmem with rfl | hmem
      · obtain ⟨t, ht, hnamed⟩ := hn.task hcall
        have htgt : t.target = handle :=
          Option.some.inj (hnamed.target.symm.trans hfind)
        refine ⟨call, hcall, hacquired.before task' t ht htgt hcount, hclean, ⟨handle, hfind⟩, ?_⟩
        intro hlast handle' hfind'
        obtain rfl : handle = handle' := Option.some.inj (hfind.symm.trans hfind')
        have hdone : o.runtime.WritersDone handle := by
          intro j u hu hwrites
          rcases Nat.lt_or_ge j count with hlt | hge
          · exact hacquired.before j u hu hwrites hlt
          · obtain ⟨c, hc, hout⟩ := hn.writes hu hfind hwrites
            exact absurd hout (hlast j c hc (Nat.lt_of_lt_of_le hcount hge))
        obtain ⟨shadow, hs⟩ := hm.shadowed
        have hnone := hs.none hn.unshared hfind hclean
        obtain ⟨hdone', hcopy⟩ := hs.sound.current hdone hacquired.here
        refine ⟨hdone', fun n hvalid => ?_⟩
        have := hcopy n hvalid
        rwa [Runtime.patch_copies hnone, Runtime.patch_copies hnone] at this
      · obtain ⟨c, hc, hfresh⟩ := h task' hmem
        exact ⟨c, hc, hfresh.finished, hfresh.clean, hfresh.found, hfresh.current⟩
  | hostWrite place v hidle =>
      intro task hmem
      obtain ⟨call, hcall, hfresh⟩ := h task (List.mem_of_mem_filter hmem)
      have hne := (mem_stillSynchronized hmem hcall).2
      have hfinished : o.runtime.finished ⊆ (o.hostWrite main place v).runtime.finished := by
        unfold Objects.hostWrite
        cases o.find place <;> exact Finset.Subset.refl _
      refine ⟨call, hcall, hfinished hfresh.finished, ?_, hfresh.found, ?_⟩
      · intro hdirty
        exact (List.mem_cons.mp hdirty).elim hne hfresh.clean
      · intro hlast handle hfind
        have hcur := hfresh.current hlast handle hfind
        show Runtime.Current (o.hostWrite main place v).runtime main handle
        unfold Objects.hostWrite
        cases hplace : o.find place with
        | none => exact hcur
        | some handle' => exact hcur.poke main v (hn.ne hfind hplace hne)
  | announce place handle count hfind hacquired =>
      intro task hmem
      obtain ⟨call, hcall, hfresh⟩ := h task (List.mem_of_mem_filter hmem)
      have hne := (mem_stillSynchronized hmem hcall).2
      refine ⟨call, hcall, hfresh.finished, ?_, hfresh.found, ?_⟩
      · exact fun hdirty => hfresh.clean (List.mem_of_mem_filter hdirty)
      · intro hlast handle' hfind'
        exact (hfresh.current hlast handle' hfind').overwrite main _ (hn.ne hfind' hfind hne)
  | marked place hfree =>
      intro task hmem
      obtain ⟨call, hcall, hfresh⟩ := h task (List.mem_of_mem_filter hmem)
      exact ⟨call, hcall, hfresh.finished,
        fun hdirty => hfresh.clean (List.mem_of_mem_filter hdirty), hfresh.found, hfresh.current⟩
  | work r hr hmain =>
      intro task hmem
      obtain ⟨call, hcall, hfresh⟩ := h task hmem
      refine ⟨call, hcall, hr.finished_subset hfresh.finished, hfresh.clean, hfresh.found, ?_⟩
      intro hlast handle hfind
      obtain ⟨shadow, hs⟩ := hm.shadowed
      have hidle : ∀ x v, shadow x = some v → o.runtime.Idle x := by
        intro x v hx
        obtain ⟨place, hdirty, hfind⟩ := hs.dirty x v hx
        exact hn.idle hfind (hm.idle place hdirty)
      have hnone := hs.none hn.unshared hfind hfresh.clean
      exact (Runtime.current_patch hnone).mp (((Runtime.current_patch hnone).mpr
        (hfresh.current hlast handle hfind)).step hs.sound (hr.patch hm.sub hidle))

/-! ### Host writes -/

/-- What becomes of the last host write to an object. -/
structure Kept (main : N) (o : Objects Key N V) (place : Place) (v : V) (k : Nat) : Prop where
  bound : k ≤ o.submitted.length
  unregistered : o.find place = none → o.memory place = v
  keeps : ∀ handle, o.find place = some handle → o.runtime.Keeps main handle v k
  announced : ∀ handle, o.find place = some handle → place ∉ o.dirty →
    o.runtime.Announced handle v k

def HostWrites (main : N) (o : Objects Key N V) : Prop :=
  ∀ place v k, o.lastWrite place = some (v, k) → o.Kept main place v k

theorem HostWrites.step (h : o.HostWrites main) (hn : o.Names tfhe) (hm : o.Memory σ)
    (hstep : Step tfhe main o o') : o'.HostWrites main := by
  cases hstep with
  | register place hfree =>
      intro x v k hlast
      have hk := h x v k hlast
      by_cases hxp : x = place
      · subst hxp
        have hvalue := hk.unregistered hfree
        have hhandle : ∀ handle, (o.register main x).find x = some handle →
            handle = o.nextHandle := by
          intro handle hfind
          exact (Option.some.inj (by simpa [Objects.register] using hfind)).symm
        refine ⟨hk.bound, fun hnone => ?_, fun handle hfind => ?_, fun handle hfind _ => ?_⟩
        · exact absurd hnone (by simp [Objects.register])
        · rw [hhandle handle hfind]
          refine ⟨hn.length ▸ hk.bound, fun j t ht hh _ => ?_, fun _ => ?_⟩
          · exact absurd hh (hn.fresh t (List.mem_of_getElem? ht))
          · simpa [Objects.register, Runtime.register] using hvalue
        · rw [hhandle handle hfind]
          intro _ n hvalid
          have hmain : n = main := by simpa [Objects.register, Runtime.register] using hvalid
          rw [hmain]
          simpa [Objects.register, Runtime.register] using hvalue
      · have hsame : (o.register main place).find x = o.find x := by
          simp [Objects.register, Function.update_of_ne hxp]
        refine ⟨hk.bound, fun hnone => hk.unregistered (hsame ▸ hnone), fun handle hfind => ?_,
          fun handle hfind hclean => ?_⟩
        · rw [hsame] at hfind
          have hne := Nat.ne_of_lt (hn.bound x handle hfind)
          exact (hk.keeps handle hfind).later rfl (Finset.Subset.refl _) (Finset.Subset.refl _)
            (by simp [Objects.register, Runtime.register, Function.update_of_ne hne])
        · rw [hsame] at hfind
          have hne := Nat.ne_of_lt (hn.bound x handle hfind)
          intro hu n hvalid
          have hvalid' : n ∈ o.runtime.valid handle := by
            simpa [Objects.register, Runtime.register, Function.update_of_ne hne] using hvalid
          simpa [Objects.register, Runtime.register, Function.update_of_ne hne] using
            hk.announced handle hfind hclean hu n hvalid'
  | submit call target sources htarget hsources hclean =>
      intro x v k hlast
      have hk := h x v k hlast
      refine ⟨Nat.le_trans hk.bound (by simp), hk.unregistered, ?_, ?_⟩
      · exact fun handle hfind => (hk.keeps handle hfind).submit _
      · exact fun handle hfind hc => (hk.announced handle hfind hc).submit _
  | acquire task call handle count hcall hfind hcount hclean hacquired =>
      intro x v k hlast
      have hk := h x v k hlast
      exact ⟨hk.bound, hk.unregistered, hk.keeps, hk.announced⟩
  | hostWrite place w hidle =>
      intro x v k hlast
      by_cases hxp : x = place
      · subst hxp
        have hvk : w = v ∧ o.submitted.length = k := by
          simpa [Objects.hostWrite] using hlast
        obtain ⟨rfl, rfl⟩ := hvk
        refine ⟨Nat.le_refl _, ?_, ?_, fun handle _ hc => absurd List.mem_cons_self hc⟩
        · intro hnone
          have hnone' : o.find x = none := hnone
          simp [Objects.hostWrite, hnone']
        · intro handle hfind
          have hfind' : o.find x = some handle := hfind
          have : (o.runtime.poke handle main w).Keeps main handle w _ :=
            (hn.idle hfind' hidle).keeps_poke w
          rw [← hn.length] at this
          simpa only [Objects.hostWrite, hfind'] using this
      · have hk := h x v k (by simpa [Objects.hostWrite, Function.update_of_ne hxp] using hlast)
        have hclean' : x ∉ (o.hostWrite main place w).dirty → x ∉ o.dirty :=
          fun hc hmem => hc (List.mem_cons_of_mem _ hmem)
        cases hplace : o.find place with
        | none =>
            refine ⟨hk.bound, fun hnone => ?_, ?_, ?_⟩
            · simpa [Objects.hostWrite, hplace, Function.update_of_ne hxp] using
                hk.unregistered hnone
            · simpa only [Objects.hostWrite, hplace] using hk.keeps
            · intro handle hfind hc
              simpa only [Objects.hostWrite, hplace] using
                hk.announced handle hfind (hclean' hc)
        | some handle' =>
            refine ⟨hk.bound, fun hnone => ?_, fun handle hfind => ?_, fun handle hfind hc => ?_⟩
            · simpa only [Objects.hostWrite, hplace] using hk.unregistered hnone
            · have hfind' : o.find x = some handle := hfind
              have hne := hn.ne hfind' hplace hxp
              have : (o.runtime.poke handle' main w).Keeps main handle v k :=
                (hk.keeps handle hfind').later rfl
                  (Finset.Subset.refl _) (Finset.Subset.refl _)
                  (Runtime.copies_poke o.runtime handle' main w hne main)
              simpa only [Objects.hostWrite, hplace] using this
            · have hfind' : o.find x = some handle := hfind
              have hne := hn.ne hfind' hplace hxp
              have hann := hk.announced handle hfind' (hclean' hc)
              have : (o.runtime.poke handle' main w).Announced handle v k := fun hu n hvalid =>
                (Runtime.copies_poke o.runtime handle' main w hne n).trans (hann hu n hvalid)
              simpa only [Objects.hostWrite, hplace] using this
  | announce place handle count hfind hacquired =>
      intro x v k hlast
      have hk := h x v k hlast
      by_cases hxp : x = place
      · subst hxp
        have hsame : ∀ handle', o.find x = some handle' → handle' = handle := fun handle' h' =>
          Option.some.inj (h'.symm.trans hfind)
        refine ⟨hk.bound, hk.unregistered, fun handle' hfind' => ?_, fun handle' hfind' _ => ?_⟩
        · obtain rfl := hsame handle' hfind'
          exact (hk.keeps handle' hfind').later rfl (Finset.Subset.refl _)
            (Finset.Subset.refl _) (by simp [Objects.announce, Objects.marked])
        · obtain rfl := hsame handle' hfind'
          exact (hk.keeps handle' hfind').announced
      · have hclean' : x ∉ (o.announce main place handle).dirty → x ∉ o.dirty := fun hc hmem =>
          hc (List.mem_filter.mpr ⟨hmem, by simpa using hxp⟩)
        refine ⟨hk.bound, hk.unregistered, fun handle' hfind' => ?_,
          fun handle' hfind' hc hu n hvalid => ?_⟩
        · exact (hk.keeps handle' hfind').later rfl (Finset.Subset.refl _) (Finset.Subset.refl _)
            (Runtime.copies_overwrite o.runtime handle main _ (hn.ne hfind' hfind hxp) main)
        · have hne := hn.ne hfind' hfind hxp
          have hvalid' : n ∈ o.runtime.valid handle' :=
            (Runtime.valid_overwrite o.runtime handle main _ hne) ▸ hvalid
          exact (Runtime.copies_overwrite o.runtime handle main _ hne n).trans
            (hk.announced handle' hfind' (hclean' hc) hu n hvalid')
  | marked place hfree =>
      intro x v k hlast
      have hk := h x v k hlast
      refine ⟨hk.bound, hk.unregistered, hk.keeps, fun handle hfind hc => ?_⟩
      have hxp : x ≠ place := by
        rintro rfl
        exact absurd (hfree.symm.trans hfind) (by simp)
      exact hk.announced handle hfind fun hmem =>
        hc (List.mem_filter.mpr ⟨hmem, by simpa using hxp⟩)
  | work r hr hmain =>
      intro x v k hlast
      have hk := h x v k hlast
      have hboth : ∀ handle, o.find x = some handle → r.Keeps main handle v k ∧
          (x ∉ o.dirty → r.Announced handle v k) := by
        intro handle hfind
        by_cases hdirty : x ∈ o.dirty
        · exact ⟨(hk.keeps handle hfind).later hr.tasks_eq hr.started_subset
            hr.finished_subset (hmain x hdirty handle hfind), fun hc => absurd hdirty hc⟩
        · obtain ⟨hkeeps, hann⟩ := (hk.keeps handle hfind).step
            (hk.announced handle hfind hdirty) hm.sub hr
          exact ⟨hkeeps, fun _ => hann⟩
      exact ⟨hk.bound, hk.unregistered, fun handle hfind => (hboth handle hfind).1,
        fun handle hfind hc => (hboth handle hfind).2 hc⟩

/-! ### Runs -/

/-- What holds of the objects in every run that starts from the contents `σ`. -/
structure Inv (tfhe : TFHE Key V) (main : N) (σ : Place → V) (o : Objects Key N V) : Prop where
  names : o.Names tfhe
  memory : o.Memory σ
  synchronized : o.Synchronized main
  hostWrites : o.HostWrites main

theorem Inv.step (h : o.Inv tfhe main σ) (hstep : Step tfhe main o o') : o'.Inv tfhe main σ where
  names := h.names.step hstep
  memory := h.memory.step h.names hstep
  synchronized := h.synchronized.step h.names h.memory hstep
  hostWrites := h.hostWrites.step h.names h.memory hstep

end Objects

end Tangor.Iyokan
