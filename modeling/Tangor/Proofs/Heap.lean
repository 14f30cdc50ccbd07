/-
The registries and the objects.

Registrations are kept until StarPU is shut down, whatever becomes of the objects.  So the
handles follow the objects exactly as long as the program reuses no registered memory for
another object, and tells the backend of what it writes where an object was registered
before: `Heap.Permits`.  Without that they do not, and `stale_handles` is a run in which
everything goes wrong that can: a handle has the size of another type, a task reads what a
destroyed object held, and two handles cover the memory of one object.

The part about contents rests on `Recalls`: the objects keep to the record, which is
`Runtime.Recorded` for those the backend has, and says what is in main memory for those it
does not know, or has not been told of.
-/
import Tangor.IyokanHeap
import Tangor.Proofs.HostWrites
import Tangor.Proofs.Registries

namespace Tangor.Iyokan

open Throwing TaskGraph

variable {Tid Key N V : Type}

/-! ### What the calls leave -/

section Calls

variable [Inhabited V] {tfhe : TFHE Key V}

omit [Inhabited V] in
theorem known_reads {call : GateCall Key} {σ : Place → Option V} (h : call.Known σ)
    {place : Place} (hread : place ∈ call.reads) : (σ place).isSome = true := by
  have hinput : place ∈ call.submission.inputs.map Access.place → (σ place).isSome = true := by
    intro hmem
    obtain ⟨access, haccess, rfl⟩ := List.mem_map.mp hmem
    exact h access (List.mem_cons_of_mem _ haccess)
      (by rw [(submission_modes call).2 access haccess]; simp)
  unfold GateCall.reads at hread
  split_ifs at hread with hmode
  · rcases List.mem_cons.mp hread with rfl | hmem
    · exact h call.submission.output List.mem_cons_self (by rw [hmode]; simp)
    · exact hinput hmem
  · exact hinput hread

/-- The record of a call has what its task computes. -/
theorem yields_outcome {call : GateCall Key} {σ : Place → Option V} {v : V}
    (h : call.outcome tfhe σ = some v) : (call.task tfhe).Yields σ v := by
  unfold GateCall.outcome at h
  split_ifs at h with hall
  obtain ⟨halias, hknown⟩ := hall
  let τ : Place → V := fun place => (σ place).getD default
  refine ⟨task_separate tfhe halias, τ, fun place hplace => ?_, ?_⟩
  · rw [task_operands] at hplace
    obtain ⟨w, hw⟩ := Option.isSome_iff_exists.mp (known_reads hknown hplace)
    simp [τ, hw]
  · have happly := congrFun (task_apply tfhe call τ) call.output
    rw [show call.output = (call.task tfhe).target from rfl, Task.apply_target] at happly
    rw [happly, ← Option.some.inj h]
    exact Function.update_self ..

end Calls

/-! ### The objects and the record -/

namespace Objects

structure Recalls [Inhabited V] (tfhe : TFHE Key V) (main : N) (o : Objects Key N V)
    (R : Record Place V) : Prop where
  follows : R.Follows (o.submitted.map (GateCall.task tfhe))
  since : ∀ i call place, o.submitted[i]? = some call → place ∈ call.places →
    i < R.since place → i ∈ o.runtime.finished
  unregistered : ∀ place k v, o.find place = none → R.since place ≤ k →
    R.seen k place = some v → o.memory place = v
  dirty : ∀ place handle k v, o.find place = some handle → place ∈ o.dirty →
    R.since place ≤ k → R.seen k place = some v → o.runtime.copies handle main = v
  clean : ∀ place handle, o.find place = some handle → place ∉ o.dirty →
    o.runtime.Recorded R place handle

section Steps

variable [Inhabited V] {tfhe : TFHE Key V} {main : N} {o o' : Objects Key N V}
  {R : Record Place V} {σ : Place → V}

theorem Recalls.length (h : o.Recalls tfhe main R) : R.before.length = o.submitted.length := by
  rw [h.follows.length, List.length_map]

/-- Less is known than before. -/
theorem Recalls.forget (h : o.Recalls tfhe main R) (place : Place) :
    o.Recalls tfhe main (R.forget place) where
  follows := h.follows.forget place
  since := h.since
  unregistered := fun x k v hfind hsince hseen =>
    h.unregistered x k v hfind hsince (Record.of_seen_forget hseen)
  dirty := fun x handle k v hfind hdirty hsince hseen =>
    h.dirty x handle k v hfind hdirty hsince (Record.of_seen_forget hseen)
  clean := fun x handle hfind hclean => (h.clean x handle hfind hclean).weaken rfl
    fun _ _ hseen => Record.of_seen_forget hseen

omit [Inhabited V] in
/-- The starts of the tasks are in order, whatever the host has written. -/
theorem Memory.ordered (hm : o.Memory σ) : (o.runtime.machine o.runtime.init).Ordered := by
  obtain ⟨shadow, hs⟩ := hm.shadowed
  obtain ⟨c, ho, -⟩ := hs.sound
  exact ⟨ho.bound, ho.sub, ho.order⟩

omit [Inhabited V] in
/-- A running task has valid copies of what it reads. -/
theorem Memory.reads_valid (hm : o.Memory σ) {i : Nat} {t : Task Handle V}
    (hrun : o.runtime.Running i) (ht : o.runtime.tasks[i]? = some t) {handle : Handle}
    (hh : handle ∈ t.operands) : o.runtime.place i ∈ o.runtime.valid handle := by
  obtain ⟨shadow, hs⟩ := hm.shadowed
  exact hs.sound.reads_valid (i := i) hrun ht hh

theorem Recalls.submit (h : o.Recalls tfhe main R) (hn : o.Names tfhe) (hm : o.Memory σ)
    {call : GateCall Key} {target : Handle} {sources : List Handle}
    (htarget : o.find call.output = some target)
    (hclean : ∀ place ∈ call.places, place ∉ o.dirty) :
    Recalls tfhe main { o with
      runtime := o.runtime.submit (taskOver tfhe call target sources)
      submitted := o.submitted ++ [call] } (R.submit call.output (call.outcome tfhe R.now)) where
  follows := by
    rw [List.map_append]
    exact h.follows.submit fun v hv => yields_outcome hv
  since := by
    intro i c place hc hplace hi
    rcases getElem?_append_singleton hc with hc | ⟨rfl, rfl⟩
    · exact h.since i c place hc hplace hi
    · have hle := h.follows.bound place
      rw [List.length_map] at hle
      exact absurd hi (Nat.not_lt.mpr hle)
  unregistered := by
    intro place k v hfind hsince hseen
    have hne : place ≠ call.output := by
      rintro rfl
      exact absurd (hfind.symm.trans htarget) (by simp)
    exact h.unregistered place k v hfind hsince (Record.of_seen_submit hne hseen)
  dirty := by
    intro place handle k v hfind hdirty hsince hseen
    have hne : place ≠ call.output := by
      rintro rfl
      exact hclean call.output List.mem_cons_self hdirty
    exact h.dirty place handle k v hfind hdirty hsince (Record.of_seen_submit hne hseen)
  clean := by
    intro place handle hfind hc
    refine (h.clean place handle hfind hc).submit (t := call.task tfhe)
      (h.length.trans hn.length) (fun i hi => ?_) (fun hplace => ?_) _
    · exact hm.ordered.bound i (hm.sub hi)
    · subst hplace
      exact Option.some.inj (hfind.symm.trans htarget)

variable [DecidableEq N]

theorem Recalls.register (h : o.Recalls tfhe main R) (hn : o.Names tfhe) {place : Place}
    (hfree : o.find place = none) : (o.register main place).Recalls tfhe main R where
  follows := h.follows
  since := h.since
  unregistered := by
    intro x k v hfind hsince hseen
    by_cases hx : x = place
    · subst hx
      exact absurd hfind (by simp [Objects.register])
    · exact h.unregistered x k v (by simpa [Objects.register, Function.update_of_ne hx] using hfind)
        hsince hseen
  dirty := by
    intro x handle k v hfind hdirty hsince hseen
    by_cases hx : x = place
    · subst hx
      obtain rfl : o.nextHandle = handle := by simpa [Objects.register] using hfind
      simpa [Objects.register, Runtime.register] using h.unregistered x k v hfree hsince hseen
    · have hfind' : o.find x = some handle := by
        simpa [Objects.register, Function.update_of_ne hx] using hfind
      simpa [Objects.register, Runtime.register,
        Function.update_of_ne (Nat.ne_of_lt (hn.bound x handle hfind'))] using
          h.dirty x handle k v hfind' hdirty hsince hseen
  clean := by
    intro x handle hfind hclean
    by_cases hx : x = place
    · subst hx
      obtain rfl : o.nextHandle = handle := by simpa [Objects.register] using hfind
      intro k v _ hsince hseen n hvalid
      obtain rfl : n = main := by simpa [Objects.register, Runtime.register] using hvalid
      simpa [Objects.register, Runtime.register] using h.unregistered x k v hfree hsince hseen
    · have hfind' : o.find x = some handle := by
        simpa [Objects.register, Function.update_of_ne hx] using hfind
      have hne := Nat.ne_of_lt (hn.bound x handle hfind')
      exact (h.clean x handle hfind' hclean).of_later (fun _ hk => ⟨hk.before, hk.after⟩)
        (Function.update_of_ne hne _ _) (Function.update_of_ne hne _ _)

omit [DecidableEq N] in
/-- What an unfinished call opens is clean, and has not been written since. -/
theorem Recalls.opens (h : o.Recalls tfhe main R) (hm : o.Memory σ) {i : Nat} {t : Task Place V}
    (ht : (o.submitted.map (GateCall.task tfhe))[i]? = some t) (hnot : i ∉ o.runtime.finished) :
    ∀ place ∈ t.handles, place ∉ o.dirty ∧ R.since place ≤ i := by
  rw [List.getElem?_map, Option.map_eq_some_iff] at ht
  obtain ⟨call, hcall, rfl⟩ := ht
  intro place hplace
  refine ⟨fun hdirty => hnot (hm.idle place hdirty i call hcall hplace), ?_⟩
  by_contra hlt
  exact hnot (h.since i call place hcall hplace (Nat.not_le.mp hlt))

theorem Recalls.work (h : o.Recalls tfhe main R) (hn : o.Names tfhe) (hm : o.Memory σ)
    {r : Runtime Handle N V} (hstep : o.runtime.Step r)
    (hmain : ∀ place ∈ o.dirty, ∀ handle, o.find place = some handle →
      r.copies handle main = o.runtime.copies handle main) :
    Recalls tfhe main { o with runtime := r } R where
  follows := h.follows
  since := fun i call place hcall hplace hi =>
    hstep.finished_subset (h.since i call place hcall hplace hi)
  unregistered := h.unregistered
  dirty := fun place handle k v hfind hdirty hsince hseen =>
    (hmain place hdirty handle hfind).trans (h.dirty place handle k v hfind hdirty hsince hseen)
  clean := fun _ _ hfind hclean =>
    hstep.recorded hm.ordered (fun _ _ hrun ht _ hy => hm.reads_valid hrun ht hy) hn.unshared
      hn.tasks h.follows (P := fun place => place ∉ o.dirty) (fun _ _ ht hnot => h.opens hm ht hnot)
      (fun x g hx hc => h.clean x g hx hc) hfind hclean

theorem Recalls.hostWrite (h : o.Recalls tfhe main R) (hn : o.Names tfhe) {place : Place}
    (hidle : o.Untouched place) (v : V) :
    (o.hostWrite main place v).Recalls tfhe main (R.write place v) where
  follows := h.follows.write place v
  since := by
    have hfinished : o.runtime.finished ⊆ (o.hostWrite main place v).runtime.finished := by
      unfold Objects.hostWrite
      cases o.find place <;> exact Finset.Subset.refl _
    intro i call x hcall hx hi
    by_cases hxp : x = place
    · exact hfinished (hidle i call hcall (hxp ▸ hx))
    · exact hfinished (h.since i call x hcall hx
        (by simpa [Record.write, Function.update_of_ne hxp] using hi))
  unregistered := by
    intro x k w hfind hsince hseen
    have hfind' : o.find x = none := hfind
    rcases Record.of_seen_write hsince hseen with ⟨rfl, rfl⟩ | ⟨hxp, hsince, hseen⟩
    · simp [Objects.hostWrite, hfind']
    · have hmemory := h.unregistered x k w hfind hsince hseen
      unfold Objects.hostWrite
      cases o.find place with
      | none => simpa [Function.update_of_ne hxp] using hmemory
      | some handle => exact hmemory
  dirty := by
    intro x handle k w hfind hdirty hsince hseen
    have hfind' : o.find x = some handle := hfind
    rcases Record.of_seen_write hsince hseen with ⟨rfl, rfl⟩ | ⟨hxp, hsince, hseen⟩
    · simp [Objects.hostWrite, hfind']
    · have hcopy := h.dirty x handle k w hfind' (List.mem_of_ne_of_mem hxp hdirty) hsince hseen
      cases hplace : o.find place with
      | none => simpa only [Objects.hostWrite, hplace] using hcopy
      | some handle' =>
          simpa only [Objects.hostWrite, hplace,
            Runtime.copies_poke _ _ _ _ (hn.ne hfind' hplace hxp)] using hcopy
  clean := by
    intro x handle hfind hclean
    have hfind' : o.find x = some handle := hfind
    have hxp : x ≠ place := by
      rintro rfl
      exact hclean List.mem_cons_self
    have hold := h.clean x handle hfind' fun hdirty => hclean (List.mem_cons_of_mem _ hdirty)
    refine Runtime.Recorded.weaken (R := R) ?_ (Function.update_of_ne hxp _ _)
      fun k w hseen => by rwa [Record.seen_write_of_ne R k hxp] at hseen
    cases hplace : o.find place with
    | none => simpa only [Objects.hostWrite, hplace] using hold
    | some handle' =>
        have hne := hn.ne hfind' hplace hxp
        have hpoke : (o.runtime.poke handle' main v).Recorded R x handle :=
          hold.of_later (fun _ hk => ⟨hk.before, hk.after⟩) rfl
            (funext fun n => Runtime.copies_poke o.runtime handle' main v hne n)
        simpa only [Objects.hostWrite, hplace] using hpoke

/-- StarPU takes over what the host has written. -/
theorem Recalls.announce (h : o.Recalls tfhe main R) (hn : o.Names tfhe) {place : Place}
    {handle : Handle} (hfind : o.find place = some handle) (hdirty : place ∈ o.dirty) :
    (o.announce main place handle).Recalls tfhe main R where
  follows := h.follows
  since := h.since
  unregistered := h.unregistered
  dirty := by
    intro x handle' k v hfind' hmem hsince hseen
    obtain ⟨hmem, hne⟩ := List.mem_filter.mp hmem
    have hxp : x ≠ place := by simpa using hne
    exact (Runtime.copies_overwrite o.runtime handle main _ (hn.ne hfind' hfind hxp) main).trans
      (h.dirty x handle' k v hfind' hmem hsince hseen)
  clean := by
    intro x handle' hfind' hclean
    by_cases hxp : x = place
    · subst hxp
      obtain rfl : handle = handle' := Option.some.inj (hfind.symm.trans hfind')
      intro k v _ hsince hseen n hvalid
      have hmain : n = main := by simpa [Objects.announce, Objects.marked] using hvalid
      rw [hmain]
      simpa [Objects.announce, Objects.marked] using h.dirty x handle k v hfind hdirty hsince hseen
    · have hne := hn.ne hfind' hfind hxp
      refine (h.clean x handle' hfind' fun hmem => hclean ?_).of_later
        (fun _ hk => ⟨hk.before, hk.after⟩) (Runtime.valid_overwrite o.runtime handle main _ hne)
        (funext fun n => Runtime.copies_overwrite o.runtime handle main _ hne n)
      exact List.mem_filter.mpr ⟨hmem, by simpa using hxp⟩

omit [DecidableEq N] in
theorem Recalls.marked (h : o.Recalls tfhe main R) {place : Place} (hfree : o.find place = none) :
    (o.marked place).Recalls tfhe main R where
  follows := h.follows
  since := h.since
  unregistered := h.unregistered
  dirty := fun x handle k v hfind hdirty =>
    h.dirty x handle k v hfind (List.mem_of_mem_filter hdirty)
  clean := by
    intro x handle hfind hclean
    refine h.clean x handle hfind fun hdirty => hclean (List.mem_filter.mpr ⟨hdirty, ?_⟩)
    have hne : x ≠ place := by
      rintro rfl
      exact absurd (hfree.symm.trans hfind) (by simp)
    simpa using hne

/-- The host writes nothing in the step, and marks only what it has written. -/
def MarksWritten (o o' : Objects Key N V) : Prop :=
  o'.written = o.written ∨ ∃ place ∈ o.dirty, place ∉ o'.dirty

omit [Inhabited V] [DecidableEq N] in
/-- A mark is of an object that has been written. -/
theorem MarksWritten.dirty {place : Place} (h : o.MarksWritten o')
    (hwritten : o'.written = place :: o.written)
    (hdirty : o'.dirty = o.dirty.filter (· ≠ place)) : place ∈ o.dirty := by
  rcases h with hsame | ⟨x, hx, hclean⟩
  · exact absurd (hwritten.symm.trans hsame) (List.cons_ne_self place o.written)
  · by_cases hxp : x = place
    · exact hxp ▸ hx
    · rw [hdirty] at hclean
      exact absurd (List.mem_filter.mpr ⟨hx, by simpa using hxp⟩) hclean

theorem Recalls.step (h : o.Recalls tfhe main R) (hn : o.Names tfhe) (hm : o.Memory σ)
    (hstep : Step tfhe main o o') (hmark : o.MarksWritten o') :
    o'.Recalls tfhe main
      (recordCalls tfhe R (o'.submitted.drop o.submitted.length)) := by
  have hsame : o'.submitted = o.submitted →
      recordCalls tfhe R (o'.submitted.drop o.submitted.length) = R := by
    intro hsubmitted
    rw [hsubmitted, List.drop_length]
    rfl
  cases hstep with
  | register place hfree =>
      rw [hsame rfl]
      exact h.register hn hfree
  | submit call target sources htarget hsources hclean =>
      rw [List.drop_left]
      exact h.submit hn hm htarget hclean
  | acquire task call handle count =>
      rw [hsame rfl]
      exact ⟨h.follows, h.since, h.unregistered, h.dirty, h.clean⟩
  | hostWrite place v hidle =>
      rcases hmark with hwritten | ⟨x, hx, hclean⟩
      · exact absurd hwritten (List.cons_ne_self place o.written)
      · exact absurd (List.mem_cons_of_mem place hx) hclean
  | announce place handle count hfind hacquired =>
      rw [hsame rfl]
      exact h.announce hn hfind (hmark.dirty rfl rfl)
  | marked place hfree =>
      rw [hsame rfl]
      exact h.marked hfree
  | work r hr hmain =>
      rw [hsame rfl]
      exact h.work hn hm hr hmain

end Steps

end Objects

/-! ### What handles describe -/

/-- The handle was registered for `o`, and for nothing else. -/
def World.Describes (w : World Key) (handle : Handle) (o : CipherObject) : Prop :=
  ∀ p, (handle, p) ∈ w.described ↔ p = o

/-- What a handle is registered for is of the place it is kept at. -/
def World.Placed (w : World Key) : Prop :=
  w.registered = w.described.map fun entry => (entry.2.place, entry.1)

theorem described_keeps {w w' : World Key} (h : w.KeepsRegistries w') :
    w'.described = w.described := by
  obtain ⟨calls, hcalls, hnone⟩ := h.calls
  unfold World.described
  rw [hcalls, List.filterMap_append, List.append_right_eq_self, List.filterMap_eq_nil_iff]
  intro call hcall
  have hregistration := (hnone call hcall).1
  cases call with
  | vectorDataRegister | variableDataRegister =>
      exact absurd hregistration (by simp [LibraryCall.registration])
  | _ => rfl

theorem described_register (w : World Key) (access : Access) :
    (w.register access.place access.registerCall).described
      = w.described ++ [(w.nextHandle, access.object)] := by
  unfold World.described
  rw [calls_register, List.filterMap_append]
  rcases access with ⟨mode, _ | _ | _, address⟩ <;> rfl

theorem World.Placed.keeps {w w' : World Key} (hw : w.Placed) (h : w.KeepsRegistries w') :
    w'.Placed := by
  unfold World.Placed
  rw [h.registered, described_keeps h]
  exact hw

theorem World.Placed.register {w : World Key} (hw : w.Placed) (access : Access) :
    (w.register access.place access.registerCall).Placed := by
  unfold World.Placed at hw ⊢
  rw [registered_register, described_register, hw, List.map_append]
  rfl

namespace World.Placed

variable {w : World Key} {handle : Handle}

theorem found (hw : w.Placed) (hr : w.Registries) {o : CipherObject}
    (h : (handle, o) ∈ w.described) : w.find o.place = some handle := by
  refine (hr.log o.place handle).mp ?_
  rw [hw]
  exact List.mem_map_of_mem h

theorem describes (hw : w.Placed) (hr : w.Registries) {o : CipherObject}
    (h : (handle, o) ∈ w.described) : w.Describes handle o := by
  intro p
  refine ⟨fun hp => ?_, fun hp => hp ▸ h⟩
  have hnodup := hr.nodup
  rw [hw, List.map_map] at hnodup
  exact congrArg Prod.snd (List.inj_on_of_nodup_map hnodup hp h rfl)

/-- A handle that is found was registered for an object of the place. -/
theorem exists_described (hw : w.Placed) (hr : w.Registries) {place : Place}
    (h : w.find place = some handle) : ∃ o, (handle, o) ∈ w.described ∧ o.place = place := by
  have hmem := (hr.log place handle).mpr h
  rw [hw] at hmem
  obtain ⟨⟨_, o⟩, hentry, heq⟩ := List.mem_map.mp hmem
  obtain ⟨rfl, rfl⟩ := Prod.mk.inj heq
  exact ⟨o, hentry, rfl⟩

end World.Placed

/-! ### The memory of the objects -/

section Memory

variable {size : CipherType → Nat} {o p : CipherObject}

theorem CipherObject.Overlaps.symm (h : o.Overlaps size p) : p.Overlaps size o := ⟨h.2, h.1⟩

/-- Objects of one place begin at one address. -/
theorem overlaps_of_place (hsize : ∀ type, 0 < size type) (h : o.place = p.place) :
    o.Overlaps size p := by
  have haddress : o.address = p.address := by
    rcases o with ⟨_ | _ | _, address⟩ <;> rcases p with ⟨_ | _ | _, address'⟩ <;>
      exact congrArg Prod.snd h
  unfold CipherObject.Overlaps
  rw [haddress]
  exact ⟨Nat.lt_add_of_pos_right (hsize p.type), Nat.lt_add_of_pos_right (hsize o.type)⟩

end Memory

/-! ### Runs -/

/-- The program creates no object over registered memory, other than the one that is
registered there, and marks what it writes where one is. -/
def Heap.Permits (size : CipherType → Nat) (h : Heap Tid Key N V) : HeapEvent V → Prop
  | .create o => ∀ entry ∈ h.system.world.described, o.Overlaps size entry.2 → entry.2 = o
  | .initialise o _ => h.system.world.find o.place = none
  | _ => True

instance (size : CipherType → Nat) (h : Heap Tid Key N V) (e : HeapEvent V) :
    Decidable (h.Permits size e) :=
  match e with
  | .create o => inferInstanceAs (Decidable (∀ entry ∈ h.system.world.described,
      o.Overlaps size entry.2 → entry.2 = o))
  | .initialise o _ => inferInstanceAs (Decidable (h.system.world.find o.place = none))
  | .destroy _ | .write _ _ | .backend => inferInstanceAs (Decidable True)

section Heap

variable [Inhabited V] {tfhe : TFHE Key V} {main : N} {useCufhepp : Bool}
  {size : CipherType → Nat} {σ : Place → V}

/-- What holds of every heap such a program comes to. -/
structure Heap.Inv [DecidableEq N] (tfhe : TFHE Key V) (main : N) (useCufhepp : Bool)
    (size : CipherType → Nat) (σ : Place → V) (h : Heap Tid Key N V) : Prop where
  system : h.system.Inv tfhe main useCufhepp σ
  registered : h.system.Registered useCufhepp
  placed : h.system.world.Placed
  recalls : h.system.objects.Recalls tfhe main h.record
  apart : ∀ o ∈ h.live, ∀ p ∈ h.live, o.Overlaps size p → o = p
  calls : ∀ t call, (h.system.threads t).pc.call = some call → ∀ o ∈ call.objects, o ∈ h.live
  described : ∀ handle p, (handle, p) ∈ h.system.world.described → ∀ o ∈ h.live,
    o.Overlaps size p → p = o

theorem Heap.Inv.create [DecidableEq N] {h : Heap Tid Key N V}
    (hi : h.Inv tfhe main useCufhepp size σ) {o : CipherObject}
    (hroom : ∀ p ∈ h.live, ¬ o.Overlaps size p) (hpermits : h.Permits (V := V) size (.create o)) :
    Heap.Inv tfhe main useCufhepp size σ
      { h with live := o :: h.live, record := h.record.forget o.place } where
  system := hi.system
  registered := hi.registered
  placed := hi.placed
  recalls := hi.recalls.forget o.place
  apart := by
    intro p hp q hq hover
    rcases List.mem_cons.mp hp with rfl | hold <;> rcases List.mem_cons.mp hq with rfl | hold'
    · rfl
    · exact absurd hover (hroom q hold')
    · exact absurd hover.symm (hroom p hold)
    · exact hi.apart p hold q hold' hover
  calls := fun t call hcall p hp => List.mem_cons_of_mem o (hi.calls t call hcall p hp)
  described := by
    intro handle p hp q hq hover
    rcases List.mem_cons.mp hq with rfl | hq
    · exact hpermits (handle, p) hp hover
    · exact hi.described handle p hp q hq hover

theorem Heap.Inv.destroy [DecidableEq N] {h : Heap Tid Key N V}
    (hi : h.Inv tfhe main useCufhepp size σ) {o : CipherObject}
    (hcalls : ∀ t call, (h.system.threads t).pc.call = some call → o ∉ call.objects) :
    Heap.Inv tfhe main useCufhepp size σ { h with live := h.live.erase o } where
  system := hi.system
  registered := hi.registered
  placed := hi.placed
  recalls := hi.recalls
  apart := fun p hp q hq => hi.apart p (List.mem_of_mem_erase hp) q (List.mem_of_mem_erase hq)
  calls := by
    intro t call hcall p hp
    have hne : p ≠ o := by
      rintro rfl
      exact hcalls t call hcall hp
    exact (List.mem_erase_of_ne hne).mpr (hi.calls t call hcall p hp)
  described := fun handle p hp q hq => hi.described handle p hp q (List.mem_of_mem_erase hq)

/-- What is returned for an operand describes the operand. -/
def Heap.Exact (h : Heap Tid Key N V) : Prop :=
  ∀ (access : Access) (handle : Handle) (w : World Key), access.object ∈ h.live →
    (handleFor access).exec h.system.world = (.ok handle, w) → w.Describes handle access.object

/-- A task that reads an object finds what is in it, but for an output it lists again. -/
def Heap.Current (h : Heap Tid Key N V) : Prop :=
  ∀ (i : Nat) (call : GateCall Key) (place : Place) (v : V), h.system.submitted[i]? = some call →
    h.system.runtime.Running i → place ∈ call.reads →
    (call.output = place → call.submission.output.mode = .RW) →
    h.record.seen i place = some v → h.system.operand i place = v

theorem Heap.Inv.current [DecidableEq N] {h : Heap Tid Key N V}
    (hi : h.Inv tfhe main useCufhepp size σ) : h.Current := by
  intro i call place v hcall hrun hread hself hseen
  have hn := hi.system.objects.names
  have hm := hi.system.objects.memory
  obtain ⟨t, ht, hnamed⟩ := hn.task hcall
  obtain ⟨handle, hoperand, hfind⟩ := Fallible.forall₂_mem_left hnamed.operands
    (task_operands tfhe call ▸ hread)
  have htask : (h.system.submitted.map (GateCall.task tfhe))[i]? = some (call.task tfhe) := by
    rw [List.getElem?_map, hcall, Option.map_some]
  obtain ⟨hclean, hsince⟩ := hi.recalls.opens hm htask hrun.2 place
    (Task.operands_subset (task_operands tfhe call ▸ hread))
  unfold System.operand
  rw [show h.system.world.find place = some handle from hfind]
  refine (hi.recalls.clean place handle hfind hclean).operand hm.ordered ht hrun hoperand
    (fun htgt => ?_) hsince (hm.reads_valid hrun ht hoperand) hseen
  have houtput : call.output = place := hn.unshared _ _ handle (htgt ▸ hnamed.target) hfind
  rw [hnamed.update]
  simpa [GateCall.task] using hself houtput

theorem Heap.Inv.exact [DecidableEq N] {h : Heap Tid Key N V}
    (hi : h.Inv tfhe main useCufhepp size σ) (hsize : ∀ type, 0 < size type) : h.Exact := by
  intro access handle w hlive hexec
  have hregistries := hi.registered.registries
  rw [exec_handleFor] at hexec
  cases hfind : h.system.world.find access.place with
  | some found =>
      rw [hfind] at hexec
      obtain ⟨hhandle, rfl⟩ := Prod.mk.inj hexec
      obtain rfl := Except.ok.inj hhandle
      obtain ⟨o, hmem, hplace⟩ := hi.placed.exists_described hregistries hfind
      have hsame : access.object.place = o.place := hplace.symm
      obtain rfl := hi.described found o hmem _ hlive (overlaps_of_place hsize hsame)
      exact hi.placed.describes hregistries hmem
  | none =>
      rw [hfind] at hexec
      obtain ⟨hhandle, rfl⟩ := Prod.mk.inj hexec
      obtain rfl := Except.ok.inj hhandle
      refine (hi.placed.register access).describes (hregistries.register hfind) ?_
      rw [described_register]
      exact List.mem_append_right _ (List.mem_singleton_self _)

variable [DecidableEq Tid] [DecidableEq Key] [DecidableEq N] {h h' : Heap Tid Key N V}

theorem Heap.Inv.backend (hi : h.Inv tfhe main useCufhepp size σ) {s : System Tid Key N V}
    (hstep : Step tfhe main useCufhepp h.system s)
    (hcalls : ∀ t call, (s.threads t).pc.call = some call →
      (h.system.threads t).pc.call = some call ∨ ∀ o ∈ call.objects, o ∈ h.live)
    (hmark : h.system.objects.MarksWritten s.objects) :
    (h.ran tfhe s).Inv tfhe main useCufhepp size σ where
  system := hi.system.step hstep
  registered := hi.registered.step hstep
  placed := by
    rcases hstep.world with hkeeps | ⟨-, -, -, access, -, -, -, hworld⟩
    · exact hi.placed.keeps hkeeps
    · show s.world.Placed
      rw [hworld]
      exact hi.placed.register access
  recalls := by
    have hobjects := hi.system.objects
    rcases (hstep.objects hi.system.keys hi.system.linked).1 with hsame | hobject
    · have hsubmitted : s.submitted = h.system.submitted := congrArg Objects.submitted hsame
      unfold Heap.ran
      rw [hsubmitted, List.drop_length, hsame]
      exact hi.recalls
    · exact hi.recalls.step hobjects.names hobjects.memory hobject hmark
  apart := hi.apart
  calls := by
    intro t call hcall o ho
    rcases hcalls t call hcall with hold | hlive
    · exact hi.calls t call hold o ho
    · exact hlive o ho
  described := by
    intro handle p hp o ho hover
    rcases hstep.world with hkeeps | ⟨t, call, handles, access, hpc, haccess, -, hworld⟩
    · exact hi.described handle p (described_keeps hkeeps ▸ hp) o ho hover
    · rw [show (h.ran tfhe s).system.world = _ from hworld, described_register] at hp
      rcases List.mem_append.mp hp with hold | hnew
      · exact hi.described handle p hold o ho hover
      · -- What is registered is an operand of a call, so it is alive.
        obtain ⟨-, rfl⟩ := Prod.mk.inj (List.mem_singleton.mp hnew)
        have hlive : access.object ∈ h.live :=
          hi.calls t call (by rw [hpc]; rfl) _ (List.mem_map_of_mem haccess)
        exact (hi.apart o ho _ hlive hover).symm

theorem Heap.Inv.write (hi : h.Inv tfhe main useCufhepp size σ) {t : Tid} {place : Place}
    (hpc : (h.system.threads t).pc = .idle) (hidle : h.system.Untouched place) (v : V) :
    Heap.Inv tfhe main useCufhepp size σ
      { h with system := h.system.hostWrite main place v, record := h.record.write place v } where
  system := hi.system.step (.hostWrite h.system t place v hpc hidle)
  registered := hi.registered.step
    (.hostWrite h.system t place v hpc hidle : Step tfhe main useCufhepp _ _)
  placed := hi.placed
  recalls := hi.recalls.hostWrite hi.system.objects.names hidle v
  apart := hi.apart
  calls := hi.calls
  described := hi.described

/-- An object the backend does not know needs no mark. -/
theorem Heap.Inv.unregistered (hi : h.Inv tfhe main useCufhepp size σ) {t : Tid} {place : Place}
    (hpc : (h.system.threads t).pc = .idle) (hfind : h.system.world.find place = none) :
    Heap.Inv tfhe main useCufhepp size σ { h with system := h.system.marked place } where
  system := hi.system.step (.markUnregistered h.system t place hpc hfind)
  registered := hi.registered.step
    (.markUnregistered h.system t place hpc hfind : Step tfhe main useCufhepp _ _)
  placed := hi.placed
  recalls := hi.recalls.marked hfind
  apart := hi.apart
  calls := hi.calls
  described := hi.described

theorem Heap.Inv.step (hi : h.Inv tfhe main useCufhepp size σ) {e : HeapEvent V}
    (hstep : HeapStep tfhe main useCufhepp size h e h') (hpermits : h.Permits size e) :
    h'.Inv tfhe main useCufhepp size σ := by
  cases hstep with
  | create o hroom => exact hi.create hroom hpermits
  | destroy o hlive hidle hcalls => exact hi.destroy hcalls
  | initialise t o v hlive hpc hidle => exact (hi.write hpc hidle v).unregistered hpc hpermits
  | write t o v hlive hpc hidle => exact hi.write hpc hidle v
  | backend s hstep hcalls hmark => exact hi.backend hstep hcalls hmark

theorem Heap.Inv.run (hi : h.Inv tfhe main useCufhepp size σ)
    (hrun : Relation.ReflTransGen (fun h h' => ∃ e, HeapStep tfhe main useCufhepp size h e h' ∧
      h.Permits size e) h h') : h'.Inv tfhe main useCufhepp size σ := by
  induction hrun with
  | refl => exact hi
  | tail _ hstep ih =>
      obtain ⟨e, hstep, hpermits⟩ := hstep
      exact ih.step hstep hpermits

end Heap

/-! ### Runs on one thread -/

end Tangor.Iyokan
