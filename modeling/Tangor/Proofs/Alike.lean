/-
Two processes that differ in what is registered.

`Alike` relates two processes that have registered different objects, and all calls keep
it, as long as a registration that only one of them has is for an object no task has used.
Such an object is valid in main memory and nowhere else, which is what it is without a
registration.  So the two answer the same to every call, except that a `mark` function asks
StarPU about an object only where it is registered.
-/
import Tangor.IyokanSessions
import Tangor.Proofs.Registries

namespace Tangor.Iyokan

open Throwing TaskGraph

variable {Tid Key V : Type}

theorem forall₂_modify {α β : Type} {R : α → β → Prop} {l : List α} {m : List β}
    (h : List.Forall₂ R l m) (i : Nat) {f : α → α} {g : β → β}
    (hmodify : ∀ a b, R a b → R (f a) (g b)) : List.Forall₂ R (l.modify i f) (m.modify i g) := by
  induction h generalizing i with
  | nil => simp
  | cons hab hrest ih =>
      cases i with
      | zero => simpa using ⟨hmodify _ _ hab, hrest⟩
      | succ i => simpa using ⟨hab, ih i⟩

/-- Both lists have related elements at a place, or none has one. -/
theorem forall₂_getElem? {α β : Type} {R : α → β → Prop} {l : List α} {m : List β}
    (h : List.Forall₂ R l m) (i : Nat) :
    (l[i]? = none ∧ m[i]? = none) ∨ ∃ a b, l[i]? = some a ∧ m[i]? = some b ∧ R a b := by
  induction h generalizing i with
  | nil => simp
  | cons hab _ ih =>
      cases i with
      | zero => exact Or.inr ⟨_, _, rfl, rfl, hab⟩
      | succ i => simpa using ih i

/-! ### Two processes that differ in what is registered -/

/-- One object in two processes: registered in both with the same copies, or in main
memory only. -/
def SameCopies (σ₁ σ₂ : Store V) : Option Handle → Option Handle → Prop
  | some h₁, some h₂ => σ₂.copies h₂ = σ₁.copies h₁
  | some h₁, none => σ₁.copies h₁ = {}
  | none, some h₂ => σ₂.copies h₂ = {}
  | none, none => True

/-- The handles of one object, or both of objects that have been unregistered. -/
def SameHandle (w₁ w₂ : World Key) (σ₁ σ₂ : Store V) (h₁ h₂ : Handle) : Prop :=
  (∃ place, w₁.find place = some h₁ ∧ w₂.find place = some h₂) ∨
    (σ₁.buffer h₁ = none ∧ σ₂.buffer h₂ = none ∧ h₁ < w₁.nextHandle ∧ h₂ < w₂.nextHandle)

/-- Handles lead to the objects they were registered for. -/
structure Store.Knows (σ : Store V) (w : World Key) : Prop where
  buffer : ∀ place handle, w.find place = some handle → σ.buffer handle = some place
  fresh : ∀ handle, w.nextHandle ≤ handle → σ.buffer handle = none

/-- The processes differ in which objects of `P` are registered, and in the handles. -/
structure Alike (P : Set Place) (w₁ w₂ : World Key) (σ₁ σ₂ : Store V) : Prop where
  currentEvalKey : w₂.currentEvalKey = w₁.currentEvalKey
  starpuInitOnce : w₂.starpuInitOnce = w₁.starpuInitOnce
  starpuInitStatus : w₂.starpuInitStatus = w₁.starpuInitStatus
  starpuRunning : w₂.starpuRunning = w₁.starpuRunning
  memory : σ₂.memory = σ₁.memory
  knows₁ : σ₁.Knows w₁
  knows₂ : σ₂.Knows w₂
  registered : ∀ place, place ∉ P → (w₁.find place = none ↔ w₂.find place = none)
  copies : ∀ place, SameCopies σ₁ σ₂ (w₁.find place) (w₂.find place)
  states : List.Forall₂ (fun a b : TaskState => b.finished = a.finished ∧ b.error = a.error ∧
    SameHandle w₁ w₂ σ₁ σ₂ a.output b.output) w₁.states w₂.states

theorem SameCopies.symm {σ₁ σ₂ : Store V} {o₁ o₂ : Option Handle} (h : SameCopies σ₁ σ₂ o₁ o₂) :
    SameCopies σ₂ σ₁ o₂ o₁ := by
  cases o₁ <;> cases o₂
  · exact h
  · exact h
  · exact h
  · exact Eq.symm h

theorem SameHandle.symm {w₁ w₂ : World Key} {σ₁ σ₂ : Store V} {h₁ h₂ : Handle}
    (h : SameHandle w₁ w₂ σ₁ σ₂ h₁ h₂) : SameHandle w₂ w₁ σ₂ σ₁ h₂ h₁ := by
  rcases h with ⟨place, h₁, h₂⟩ | ⟨h₁, h₂, hlt₁, hlt₂⟩
  · exact Or.inl ⟨place, h₂, h₁⟩
  · exact Or.inr ⟨h₂, h₁, hlt₂, hlt₁⟩

/-- A handle in a registry is none that has not been given out. -/
theorem Store.Knows.lt {σ : Store V} {w : World Key} (h : σ.Knows w) {place : Place}
    {handle : Handle} (hfind : w.find place = some handle) : handle < w.nextHandle := by
  by_contra hge
  have := h.fresh handle (Nat.not_lt.mp hge)
  rw [h.buffer place handle hfind] at this
  exact absurd this (by simp)

/-- Two objects do not have the same handle. -/
theorem Store.Knows.unshared {σ : Store V} {w : World Key} (h : σ.Knows w) {place place' : Place}
    {handle : Handle} (hfind : w.find place = some handle) (hfind' : w.find place' = some handle) :
    place' = place :=
  Option.some.inj ((h.buffer place' handle hfind').symm.trans (h.buffer place handle hfind))

namespace Alike

variable {P : Set Place} {w₁ w₂ : World Key} {σ₁ σ₂ : Store V}

theorem symm (h : Alike P w₁ w₂ σ₁ σ₂) : Alike P w₂ w₁ σ₂ σ₁ where
  currentEvalKey := h.currentEvalKey.symm
  starpuInitOnce := h.starpuInitOnce.symm
  starpuInitStatus := h.starpuInitStatus.symm
  starpuRunning := h.starpuRunning.symm
  memory := h.memory.symm
  knows₁ := h.knows₂
  knows₂ := h.knows₁
  registered := fun place hplace => (h.registered place hplace).symm
  copies := fun place => (h.copies place).symm
  states := h.states.flip.imp fun _ _ hab => ⟨hab.1.symm, hab.2.1.symm, hab.2.2.symm⟩

/-- Other globals change, and the same way. -/
theorem frame (h : Alike P w₁ w₂ σ₁ σ₂) {w₁' w₂' : World Key} (hfind₁ : w₁'.find = w₁.find)
    (hfind₂ : w₂'.find = w₂.find) (hnext₁ : w₁'.nextHandle = w₁.nextHandle)
    (hnext₂ : w₂'.nextHandle = w₂.nextHandle) (hstates₁ : w₁'.states = w₁.states)
    (hstates₂ : w₂'.states = w₂.states) (hkey : w₂'.currentEvalKey = w₁'.currentEvalKey)
    (honce : w₂'.starpuInitOnce = w₁'.starpuInitOnce)
    (hstatus : w₂'.starpuInitStatus = w₁'.starpuInitStatus)
    (hrunning : w₂'.starpuRunning = w₁'.starpuRunning) : Alike P w₁' w₂' σ₁ σ₂ where
  currentEvalKey := hkey
  starpuInitOnce := honce
  starpuInitStatus := hstatus
  starpuRunning := hrunning
  memory := h.memory
  knows₁ := ⟨by rw [hfind₁]; exact h.knows₁.buffer, by rw [hnext₁]; exact h.knows₁.fresh⟩
  knows₂ := ⟨by rw [hfind₂]; exact h.knows₂.buffer, by rw [hnext₂]; exact h.knows₂.fresh⟩
  registered := by
    rw [hfind₁, hfind₂]
    exact h.registered
  copies := by
    rw [hfind₁, hfind₂]
    exact h.copies
  states := by
    rw [hstates₁, hstates₂]
    refine h.states.imp fun a b hab => ⟨hab.1, hab.2.1, ?_⟩
    unfold SameHandle
    rw [hfind₁, hfind₂, hnext₁, hnext₂]
    exact hab.2.2

theorem call (h : Alike P w₁ w₂ σ₁ σ₂) (call : LibraryCall Key) :
    Alike P (w₁.call call) w₂ σ₁ σ₂ :=
  h.frame rfl rfl rfl rfl rfl rfl h.currentEvalKey h.starpuInitOnce h.starpuInitStatus
    h.starpuRunning

theorem callBoth (h : Alike P w₁ w₂ σ₁ σ₂) (call₁ call₂ : LibraryCall Key) :
    Alike P (w₁.call call₁) (w₂.call call₂) σ₁ σ₂ := ((h.call call₁).symm.call call₂).symm

/-- One process registers an object. -/
theorem register (h : Alike P w₁ w₂ σ₁ σ₂) {access : Access}
    (hfree : w₁.find access.place = none) (hplace : access.place ∈ P) :
    Alike P (w₁.register access.place access.registerCall) w₂
      (σ₁.register w₁.nextHandle access.place) σ₂ := by
  have hold : ∀ {place handle}, w₁.find place = some handle →
      (w₁.register access.place access.registerCall).find place = some handle := by
    intro place handle hfind
    have hne : place ≠ access.place := by
      rintro rfl
      exact absurd (hfree.symm.trans hfind) (by simp)
    rwa [find_register, if_neg hne]
  have hframe : (w₁.register access.place access.registerCall).currentEvalKey = w₁.currentEvalKey ∧
      (w₁.register access.place access.registerCall).starpuInitOnce = w₁.starpuInitOnce ∧
      (w₁.register access.place access.registerCall).starpuInitStatus = w₁.starpuInitStatus ∧
      (w₁.register access.place access.registerCall).starpuRunning = w₁.starpuRunning ∧
      (w₁.register access.place access.registerCall).states = w₁.states := by
    rcases access with ⟨mode, _ | _ | _, address⟩ <;> exact ⟨rfl, rfl, rfl, rfl, rfl⟩
  obtain ⟨hkey, honce, hstatus, hrunning, hstates⟩ := hframe
  have hnew : (σ₁.register w₁.nextHandle access.place).copies w₁.nextHandle = {} :=
    Function.update_self ..
  refine ⟨?_, ?_, ?_, ?_, h.memory, ⟨?_, ?_⟩, h.knows₂, ?_, ?_, ?_⟩
  · rw [hkey, h.currentEvalKey]
  · rw [honce, h.starpuInitOnce]
  · rw [hstatus, h.starpuInitStatus]
  · rw [hrunning, h.starpuRunning]
  · intro place handle hfind
    rw [find_register] at hfind
    split_ifs at hfind with hplace
    · rw [← Option.some.inj hfind, hplace]
      exact Function.update_self ..
    · have hne := Nat.ne_of_lt (h.knows₁.lt hfind)
      exact (Function.update_of_ne hne _ _).trans (h.knows₁.buffer place handle hfind)
  · intro handle hle
    have hlt : w₁.nextHandle < handle := hle
    exact (Function.update_of_ne (Nat.ne_of_gt hlt) _ _).trans
      (h.knows₁.fresh handle (Nat.le_of_lt hlt))
  · intro place hne
    have hother : place ≠ access.place := by
      rintro rfl
      exact hne hplace
    rw [find_register, if_neg hother]
    exact h.registered place hne
  · intro place
    have hplace := h.copies place
    rw [find_register]
    split_ifs with heq
    · rw [heq, hfree] at hplace
      rw [heq]
      cases hfind : w₂.find access.place with
      | none => exact hnew
      | some handle =>
          rw [hfind] at hplace
          exact Eq.trans hplace hnew.symm
    · cases hfind : w₁.find place with
      | none =>
          rw [hfind] at hplace
          cases hfind₂ : w₂.find place <;> rw [hfind₂] at hplace <;> exact hplace
      | some handle =>
          rw [hfind] at hplace
          have hsame : (σ₁.register w₁.nextHandle access.place).copies handle = σ₁.copies handle :=
            Function.update_of_ne (Nat.ne_of_lt (h.knows₁.lt hfind)) _ _
          cases hfind₂ : w₂.find place with
          | none =>
              rw [hfind₂] at hplace
              exact hsame.trans hplace
          | some handle₂ =>
              rw [hfind₂] at hplace
              exact Eq.trans hplace hsame.symm
  · rw [hstates]
    refine h.states.imp fun a b hab => ⟨hab.1, hab.2.1, ?_⟩
    rcases hab.2.2 with ⟨place, h₁, h₂⟩ | ⟨h₁, h₂, hlt₁, hlt₂⟩
    · exact Or.inl ⟨place, hold h₁, h₂⟩
    · refine Or.inr ⟨?_, h₂, Nat.lt_succ_of_lt hlt₁, hlt₂⟩
      exact (Function.update_of_ne (Nat.ne_of_lt hlt₁) _ _).trans h₁

/-- The object of two handles gets other copies, and main memory changes, in both processes. -/
theorem modify (h : Alike P w₁ w₂ σ₁ σ₂) {place : Place} {h₁ h₂ : Handle}
    (hfind₁ : w₁.find place = some h₁) (hfind₂ : w₂.find place = some h₂) (c : Copies V)
    (memory : Address → V) :
    Alike P w₁ w₂ { σ₁ with memory := memory, copies := Function.update σ₁.copies h₁ c }
      { σ₂ with memory := memory, copies := Function.update σ₂.copies h₂ c } := by
  have hother₁ : ∀ {place' handle}, place' ≠ place → w₁.find place' = some handle →
      Function.update σ₁.copies h₁ c handle = σ₁.copies handle := by
    intro place' handle hne hfind
    refine Function.update_of_ne ?_ _ _
    rintro rfl
    exact hne (h.knows₁.unshared hfind₁ hfind)
  have hother₂ : ∀ {place' handle}, place' ≠ place → w₂.find place' = some handle →
      Function.update σ₂.copies h₂ c handle = σ₂.copies handle := by
    intro place' handle hne hfind
    refine Function.update_of_ne ?_ _ _
    rintro rfl
    exact hne (h.knows₂.unshared hfind₂ hfind)
  refine ⟨h.currentEvalKey, h.starpuInitOnce, h.starpuInitStatus, h.starpuRunning, rfl,
    ⟨h.knows₁.buffer, h.knows₁.fresh⟩, ⟨h.knows₂.buffer, h.knows₂.fresh⟩, h.registered, ?_,
    h.states⟩
  intro place'
  by_cases hplace : place' = place
  · rw [hplace, hfind₁, hfind₂]
    show Function.update σ₂.copies h₂ c h₂ = Function.update σ₁.copies h₁ c h₁
    rw [Function.update_self, Function.update_self]
  · have hsame := h.copies place'
    cases hf₁ : w₁.find place' with
    | none =>
        cases hf₂ : w₂.find place' with
        | none => trivial
        | some handle₂ =>
            rw [hf₁, hf₂] at hsame
            exact (hother₂ hplace hf₂).trans hsame
    | some handle₁ =>
        cases hf₂ : w₂.find place' with
        | none =>
            rw [hf₁, hf₂] at hsame
            exact (hother₁ hplace hf₁).trans hsame
        | some handle₂ =>
            rw [hf₁, hf₂] at hsame
            exact (hother₂ hplace hf₂).trans (Eq.trans hsame (hother₁ hplace hf₁).symm)

/-- What is registered in both processes is nothing they differ in. -/
theorem shrink {Q : Set Place} (h : Alike Q w₁ w₂ σ₁ σ₂)
    (hboth : ∀ place ∈ Q, place ∉ P → w₁.find place ≠ none ∧ w₂.find place ≠ none) :
    Alike P w₁ w₂ σ₁ σ₂ where
  __ := h
  registered := by
    intro place hplace
    by_cases hmem : place ∈ Q
    · obtain ⟨h₁, h₂⟩ := hboth place hmem hplace
      exact iff_of_false h₁ h₂
    · exact h.registered place hmem

theorem grow {Q : Set Place} (h : Alike P w₁ w₂ σ₁ σ₂) (hsub : P ⊆ Q) : Alike Q w₁ w₂ σ₁ σ₂ where
  __ := h
  registered := fun place hplace => h.registered place fun hmem => hplace (hsub hmem)

/-- The mode of the last acquisition is not looked at. -/
theorem acquired (h : Alike P w₁ w₂ σ₁ σ₂) (mode₁ mode₂ : AccessMode) :
    Alike P w₁ w₂ { σ₁ with acquired := mode₁ } { σ₂ with acquired := mode₂ } :=
  ⟨h.currentEvalKey, h.starpuInitOnce, h.starpuInitStatus, h.starpuRunning, h.memory,
    ⟨h.knows₁.buffer, h.knows₁.fresh⟩, ⟨h.knows₂.buffer, h.knows₂.fresh⟩, h.registered, h.copies,
    h.states⟩

/-- Both register an object that neither has. -/
theorem registerBoth (h : Alike P w₁ w₂ σ₁ σ₂) {access : Access}
    (hfree₁ : w₁.find access.place = none) (hfree₂ : w₂.find access.place = none) :
    Alike P (w₁.register access.place access.registerCall)
      (w₂.register access.place access.registerCall)
      (σ₁.register w₁.nextHandle access.place) (σ₂.register w₂.nextHandle access.place) := by
  have hmem : access.place ∈ insert access.place P := Set.mem_insert _ _
  have hfirst := (h.grow (Set.subset_insert access.place P)).register hfree₁ hmem
  refine (hfirst.symm.register hfree₂ hmem).symm.shrink ?_
  intro place hplace hnot
  obtain rfl : place = access.place := hplace.resolve_right hnot
  rw [find_register, find_register, if_pos rfl, if_pos rfl]
  exact ⟨by simp, by simp⟩

/-! ### Tasks and acquisitions -/

/-- The handles of one object. -/
theorem sameCopies (h : Alike P w₁ w₂ σ₁ σ₂) {place : Place} {h₁ h₂ : Handle}
    (hfind₁ : w₁.find place = some h₁) (hfind₂ : w₂.find place = some h₂) :
    σ₂.copies h₂ = σ₁.copies h₁ := by
  have := h.copies place
  rwa [hfind₁, hfind₂] at this

theorem bring (h : Alike P w₁ w₂ σ₁ σ₂) {place : Place} {h₁ h₂ : Handle}
    (hfind₁ : w₁.find place = some h₁) (hfind₂ : w₂.find place = some h₂) (onDevice : Bool) :
    Alike P w₁ w₂ (σ₁.bring onDevice h₁) (σ₂.bring onDevice h₂) := by
  simp only [Store.bring, h.knows₁.buffer place h₁ hfind₁, h.knows₂.buffer place h₂ hfind₂,
    h.sameCopies hfind₁ hfind₂, h.memory]
  exact h.modify hfind₁ hfind₂ _ _

theorem write (h : Alike P w₁ w₂ σ₁ σ₂) {place : Place} {h₁ h₂ : Handle}
    (hfind₁ : w₁.find place = some h₁) (hfind₂ : w₂.find place = some h₂) (onDevice : Bool)
    (v : V) : Alike P w₁ w₂ (σ₁.write onDevice h₁ v) (σ₂.write onDevice h₂ v) := by
  simp only [Store.write, h.knows₁.buffer place h₁ hfind₁, h.knows₂.buffer place h₂ hfind₂,
    h.memory]
  exact h.modify hfind₁ hfind₂ _ _

theorem read (h : Alike P w₁ w₂ σ₁ σ₂) {place : Place} {h₁ h₂ : Handle}
    (hfind₁ : w₁.find place = some h₁) (hfind₂ : w₂.find place = some h₂) (onDevice : Bool) :
    σ₂.read onDevice h₂ = σ₁.read onDevice h₁ := by
  simp only [Store.read, h.knows₁.buffer place h₁ hfind₁, h.knows₂.buffer place h₂ hfind₂,
    h.sameCopies hfind₁ hfind₂, h.memory]

/-- Handles of the same objects, one after the other. -/
def Both (w₁ w₂ : World Key) : List Handle → List Handle → Prop :=
  List.Forall₂ fun h₁ h₂ => ∃ place, w₁.find place = some h₁ ∧ w₂.find place = some h₂

theorem bringAll (h : Alike P w₁ w₂ σ₁ σ₂) {hs₁ hs₂ : List Handle} (hboth : Both w₁ w₂ hs₁ hs₂)
    (onDevice : Bool) : Alike P w₁ w₂ (hs₁.foldl (Store.bring onDevice) σ₁)
      (hs₂.foldl (Store.bring onDevice) σ₂) := by
  induction hboth generalizing σ₁ σ₂ with
  | nil => exact h
  | cons hhead _ ih =>
      obtain ⟨place, hfind₁, hfind₂⟩ := hhead
      exact ih (h.bring hfind₁ hfind₂ onDevice)

/-- A task over the same objects. -/
theorem execute [Inhabited V] (h : Alike P w₁ w₂ σ₁ σ₂) {task₁ task₂ : Task Handle V}
    (hfn : task₂.fn = task₁.fn) (hupdate : task₂.update = task₁.update)
    (hboth : Both w₁ w₂ task₁.handles task₂.handles) (onDevice : Bool) :
    Alike P w₁ w₂ (σ₁.execute onDevice task₁) (σ₂.execute onDevice task₂) := by
  have hoperands : Both w₁ w₂ task₁.operands task₂.operands := by
    unfold Task.operands
    rw [hupdate]
    cases hboth with
    | cons htarget hsources =>
        split
        · exact .cons htarget hsources
        · exact hsources
  have hbrought := h.bringAll hoperands onDevice
  have hread : (task₂.operands.map fun handle => ((task₂.operands.foldl (Store.bring onDevice)
      σ₂).read onDevice handle).getD default) = task₁.operands.map fun handle =>
        ((task₁.operands.foldl (Store.bring onDevice) σ₁).read onDevice handle).getD default := by
    refine (List.forall₂_eq_eq_eq ▸ List.forall₂_map_left_iff.mpr
      (List.forall₂_map_right_iff.mpr (hoperands.imp fun h₁ h₂ hplace => ?_)) :
        task₁.operands.map _ = task₂.operands.map _).symm
    obtain ⟨place, hfind₁, hfind₂⟩ := hplace
    rw [hbrought.read hfind₁ hfind₂]
  cases hboth with
  | cons htarget _ =>
      obtain ⟨place, hfind₁, hfind₂⟩ := htarget
      simp only [Store.execute, hread, hfn]
      exact hbrought.write hfind₁ hfind₂ onDevice _

/-- The host synchronises the output of a token. -/
theorem synchronize (h : Alike P w₁ w₂ σ₁ σ₂) {h₁ h₂ : Handle}
    (hsame : SameHandle w₁ w₂ σ₁ σ₂ h₁ h₂) : Alike P w₁ w₂
      ({ σ₁ with acquired := .R }.release h₁) ({ σ₂ with acquired := .R }.release h₂) := by
  have hacquired := h.acquired .R .R
  rcases hsame with ⟨place, hfind₁, hfind₂⟩ | ⟨hnone₁, hnone₂, -, -⟩
  · exact hacquired.bring hfind₁ hfind₂ false
  · simpa [Store.release, Store.bring, hnone₁, hnone₂] using hacquired

/-- The host announces what it has stored, in the process where the object is registered. -/
theorem announce (h : Alike P w₁ w₂ σ₁ σ₂) {place : Place} {h₁ : Handle}
    (hfind₁ : w₁.find place = some h₁) (hfind₂ : w₂.find place = none) :
    Alike P w₁ w₂ ({ σ₁ with acquired := .W }.release h₁) σ₂ := by
  have hcopies : σ₁.copies h₁ = {} := by
    have := h.copies place
    rwa [hfind₁, hfind₂] at this
  have hsame : Function.update σ₁.copies h₁ {} = σ₁.copies := by
    rw [← hcopies, Function.update_eq_self]
  simp only [Store.release, hsame]
  exact h.acquired .W σ₂.acquired

theorem announceBoth (h : Alike P w₁ w₂ σ₁ σ₂) {place : Place} {h₁ h₂ : Handle}
    (hfind₁ : w₁.find place = some h₁) (hfind₂ : w₂.find place = some h₂) :
    Alike P w₁ w₂ ({ σ₁ with acquired := .W }.release h₁)
      ({ σ₂ with acquired := .W }.release h₂) := by
  have := (h.modify hfind₁ hfind₂ {} σ₁.memory).acquired .W .W
  simpa only [Store.release, h.memory] using this

/-! ### Tokens -/

theorem restate (h : Alike P w₁ w₂ σ₁ σ₂) {states₁ states₂ : List TaskState}
    (hstates : List.Forall₂ (fun a b : TaskState => b.finished = a.finished ∧ b.error = a.error ∧
      SameHandle w₁ w₂ σ₁ σ₂ a.output b.output) states₁ states₂) :
    Alike P { w₁ with states := states₁ } { w₂ with states := states₂ } σ₁ σ₂ :=
  ⟨h.currentEvalKey, h.starpuInitOnce, h.starpuInitStatus, h.starpuRunning, h.memory,
    ⟨h.knows₁.buffer, h.knows₁.fresh⟩, ⟨h.knows₂.buffer, h.knows₂.fresh⟩, h.registered, h.copies,
    hstates⟩

/-- Both processes get a token for the same object. -/
theorem addTask (h : Alike P w₁ w₂ σ₁ σ₂) {h₁ h₂ : Handle}
    (htarget : ∃ place, w₁.find place = some h₁ ∧ w₂.find place = some h₂) :
    Alike P (w₁.addTask h₁) (w₂.addTask h₂) σ₁ σ₂ :=
  h.restate (List.rel_append h.states (.cons ⟨rfl, rfl, Or.inl htarget⟩ .nil))

theorem complete (h : Alike P w₁ w₂ σ₁ σ₂) (task : IyokanStarpuTask) :
    Alike P (w₁.complete task) (w₂.complete task) σ₁ σ₂ :=
  h.restate (forall₂_modify h.states task fun _ _ hab => ⟨rfl, hab.2⟩)

theorem fail (h : Alike P w₁ w₂ σ₁ σ₂) (task : IyokanStarpuTask) (error : Int) :
    Alike P (w₁.fail task error) (w₂.fail task error) σ₁ σ₂ :=
  h.restate (forall₂_modify h.states task fun _ _ hab => ⟨hab.1, rfl, hab.2.2⟩)

/-! ### A shutdown -/

theorem foldl_unregister (handles : List Handle) (σ : Store V) :
    (handles.foldl Store.unregister σ).memory = σ.memory ∧
      ∀ handle, (handles.foldl Store.unregister σ).buffer handle
        = if handle ∈ handles then none else σ.buffer handle := by
  induction handles generalizing σ with
  | nil => exact ⟨rfl, fun _ => rfl⟩
  | cons first rest ih =>
      obtain ⟨hmemory, hbuffer⟩ := ih (σ.unregister first)
      refine ⟨hmemory, fun handle => ?_⟩
      rw [List.foldl_cons, hbuffer]
      by_cases hrest : handle ∈ rest
      · rw [if_pos hrest, if_pos (List.mem_cons_of_mem _ hrest)]
      · rw [if_neg hrest]
        by_cases hfirst : handle = first
        · rw [hfirst, if_pos List.mem_cons_self]
          exact Function.update_self ..
        · rw [if_neg (by simp [hfirst, hrest])]
          exact Function.update_of_ne hfirst _ _

theorem find_shutdown (w : World Key) (useCufhepp : Bool) (place : Place) :
    (w.shutdown useCufhepp).find place = none := by
  obtain ⟨-, -, -, hhandles, hvariables, -⟩ := shutdown_frame w useCufhepp
  rcases place with ⟨_ | _, address⟩
  · simp [World.find, hhandles]
  · simp [World.find, hvariables]

theorem knows_shutdown {w : World Key} {σ : Store V} (h : σ.Knows w) (useCufhepp : Bool) :
    (w.handles.foldl Store.unregister σ).Knows (w.shutdown useCufhepp) where
  buffer := fun place handle hfind => by
    rw [find_shutdown] at hfind
    exact absurd hfind (by simp)
  fresh := fun handle hle => by
    obtain ⟨-, -, -, -, -, hnext⟩ := shutdown_frame w useCufhepp
    rw [(foldl_unregister w.handles σ).2]
    split_ifs
    · rfl
    · exact h.fresh handle (hnext ▸ hle)

/-- No object is registered after a shutdown, and no token has a handle StarPU knows. -/
theorem shutdown (h : Alike P w₁ w₂ σ₁ σ₂) (useCufhepp : Bool) :
    Alike P (w₁.shutdown useCufhepp) (w₂.shutdown useCufhepp)
      (w₁.handles.foldl Store.unregister σ₁) (w₂.handles.foldl Store.unregister σ₂) := by
  obtain ⟨hstatus₁, honce₁, hrunning₁, -, -, hnext₁⟩ := shutdown_frame w₁ useCufhepp
  obtain ⟨hstatus₂, honce₂, hrunning₂, -, -, hnext₂⟩ := shutdown_frame w₂ useCufhepp
  obtain ⟨hmemory₁, hbuffer₁⟩ := foldl_unregister w₁.handles σ₁
  obtain ⟨hmemory₂, hbuffer₂⟩ := foldl_unregister w₂.handles σ₂
  refine ⟨rfl, by rw [honce₁, honce₂, h.starpuInitOnce], by rw [hstatus₁, hstatus₂,
    h.starpuInitStatus], by rw [hrunning₁, hrunning₂], by rw [hmemory₁, hmemory₂, h.memory],
    knows_shutdown h.knows₁ useCufhepp, knows_shutdown h.knows₂ useCufhepp, ?_, ?_, ?_⟩
  · intro place _
    rw [find_shutdown, find_shutdown]
  · intro place
    rw [find_shutdown, find_shutdown]
    trivial
  · rw [states_shutdown, states_shutdown]
    refine h.states.imp fun a b hab => ⟨hab.1, hab.2.1, Or.inr ?_⟩
    rw [hbuffer₁, hbuffer₂, hnext₁, hnext₂]
    rcases hab.2.2 with ⟨place, hfind₁, hfind₂⟩ | ⟨hnone₁, hnone₂, hlt₁, hlt₂⟩
    · exact ⟨if_pos (find_mem_handles hfind₁), if_pos (find_mem_handles hfind₂),
        h.knows₁.lt hfind₁, h.knows₂.lt hfind₂⟩
    · refine ⟨?_, ?_, hlt₁, hlt₂⟩
      · rw [hnone₁, ite_self]
      · rw [hnone₂, ite_self]

end Alike

/-! ### Parts of the backend that move no data -/

/-- The call leaves the data alone. -/
def LibraryCall.Quiet : LibraryCall Key → Prop
  | .vectorDataRegister _ _ | .variableDataRegister _ _ _ | .dataUnregisterNoCoherency _
  | .dataAcquire _ _ | .dataRelease _ => False
  | .taskInsert _ _ status => status ≠ 0
  | _ => True

/-- The registries, the tokens and the data are as they were. -/
structure World.Quietly (w w' : World Key) : Prop where
  find : w'.find = w.find
  nextHandle : w'.nextHandle = w.nextHandle
  states : w'.states = w.states
  calls : ∃ calls, w'.calls = w.calls ++ calls ∧ ∀ call ∈ calls, call.Quiet

theorem quietly_refl (w : World Key) : w.Quietly w := ⟨rfl, rfl, rfl, [], by simp, by simp⟩

theorem World.Quietly.trans {w w' w'' : World Key} (h : w.Quietly w') (h' : w'.Quietly w'') :
    w.Quietly w'' := by
  obtain ⟨calls, hcalls, hquiet⟩ := h.calls
  obtain ⟨calls', hcalls', hquiet'⟩ := h'.calls
  refine ⟨h'.find.trans h.find, h'.nextHandle.trans h.nextHandle, h'.states.trans h.states,
    calls ++ calls', by rw [hcalls', hcalls, List.append_assoc], fun call hcall => ?_⟩
  rcases List.mem_append.mp hcall with hcall | hcall
  · exact hquiet call hcall
  · exact hquiet' call hcall

instance : IsTrans (World Key) World.Quietly := ⟨fun _ _ _ => World.Quietly.trans⟩

theorem quietly_call (w : World Key) {call : LibraryCall Key} (h : call.Quiet) :
    w.Quietly (w.call call) := ⟨rfl, rfl, rfl, [call], rfl, by simpa using h⟩

theorem quietly_afterInit (w : World Key) (answers : Answers) :
    w.Quietly (w.afterInit answers) := by
  refine ⟨rfl, rfl, rfl, _, rfl, ?_⟩
  by_cases hinit : answers.init = 0 <;> simp [hinit, LibraryCall.Quiet]

theorem quietly_bind [DecidableEq Key] (w : World Key) (useCufhepp : Bool) (answers : Answers)
    (evalKey : Key) : w.Quietly (w.bind useCufhepp answers evalKey) := by
  rcases bind_cases w useCufhepp answers evalKey with h | h | ⟨-, h⟩ <;> rw [h]
  · exact ⟨rfl, rfl, rfl, [], by simp, by simp⟩
  · exact ⟨rfl, rfl, rfl, [.cudaWorkerGetCount], rfl, by simp [LibraryCall.Quiet]⟩
  · exact ⟨rfl, rfl, rfl, [.cudaWorkerGetCount, .cufheInitialize evalKey,
      .atexit .cleanupIyokanCufhepp], by simp [World.call], by simp [LibraryCall.Quiet]⟩

/-- What binding a key leaves of the other globals. -/
theorem bind_frame [DecidableEq Key] (w : World Key) (useCufhepp : Bool) (answers : Answers)
    (evalKey : Key) :
    (w.bind useCufhepp answers evalKey).currentEvalKey = some evalKey ∧
      (w.bind useCufhepp answers evalKey).starpuInitOnce = w.starpuInitOnce ∧
      (w.bind useCufhepp answers evalKey).starpuInitStatus = w.starpuInitStatus ∧
      (w.bind useCufhepp answers evalKey).starpuRunning = w.starpuRunning := by
  rcases bind_cases w useCufhepp answers evalKey with h | h | ⟨-, h⟩ <;> rw [h] <;>
    exact ⟨rfl, rfl, rfl, rfl⟩

/-- Two processes, followed from somewhere in their past on. -/
structure Comparison (Key V : Type) where
  tfhe : TFHE Key V
  onDevice : Bool
  /-- The key the codelets find. -/
  currentEvalKey : Option Key
  past₁ : List (LibraryCall Key) × Store V
  past₂ : List (LibraryCall Key) × Store V
  P : Set Place

namespace Comparison

variable [Inhabited V] (c : Comparison Key V)

/-- The data after the calls that have been made since. -/
def Since (past : List (LibraryCall Key) × Store V) (w : World Key) (σ : Store V) : Prop :=
  ∃ later, w.calls = past.1 ++ later ∧
    σ = later.foldl (Store.after c.tfhe c.onDevice c.currentEvalKey) past.2

def Related (w₁ w₂ : World Key) : Prop :=
  ∃ σ₁ σ₂, c.Since c.past₁ w₁ σ₁ ∧ c.Since c.past₂ w₂ σ₂ ∧ Alike c.P w₁ w₂ σ₁ σ₂

variable {c} {past : List (LibraryCall Key) × Store V} {w w' w₁ w₂ w₁' w₂' : World Key}
  {σ : Store V}

theorem Since.calls (h : c.Since past w σ) {calls : List (LibraryCall Key)}
    (hcalls : w'.calls = w.calls ++ calls) :
    c.Since past w' (calls.foldl (Store.after c.tfhe c.onDevice c.currentEvalKey) σ) := by
  obtain ⟨later, hlater, rfl⟩ := h
  exact ⟨later ++ calls, by rw [hcalls, hlater, List.append_assoc], by rw [List.foldl_append]⟩

theorem Since.call (h : c.Since past w σ) (call : LibraryCall Key) :
    c.Since past (w.call call) (σ.after c.tfhe c.onDevice c.currentEvalKey call) := by
  have hcalls : (w.call call).calls = w.calls ++ [call] := rfl
  exact h.calls hcalls

theorem after_quiet {tfhe : TFHE Key V} {onDevice : Bool} {currentEvalKey : Option Key}
    {call : LibraryCall Key} (h : call.Quiet) (σ : Store V) :
    σ.after tfhe onDevice currentEvalKey call = σ := by
  cases call with
  | vectorDataRegister | variableDataRegister | dataUnregisterNoCoherency | dataAcquire
    | dataRelease => exact h.elim
  | taskInsert codelet buffers status =>
      rcases buffers with _ | ⟨⟨mode, target⟩, sources⟩
      · rfl
      · exact if_neg h
  | _ => rfl

theorem foldl_quiet {tfhe : TFHE Key V} {onDevice : Bool} {currentEvalKey : Option Key}
    {calls : List (LibraryCall Key)} (hquiet : ∀ call ∈ calls, call.Quiet) (σ : Store V) :
    calls.foldl (Store.after tfhe onDevice currentEvalKey) σ = σ := by
  induction calls with
  | nil => rfl
  | cons call rest ih =>
      rw [List.foldl_cons, after_quiet (hquiet call List.mem_cons_self)]
      exact ih fun c hc => hquiet c (List.mem_cons_of_mem _ hc)

theorem Since.quiet (h : c.Since past w σ) {calls : List (LibraryCall Key)}
    (hcalls : w'.calls = w.calls ++ calls) (hquiet : ∀ call ∈ calls, call.Quiet) :
    c.Since past w' σ := by
  have := h.calls hcalls
  rwa [foldl_quiet hquiet] at this

theorem Since.quietly (h : c.Since past w σ) (hw : w.Quietly w') : c.Since past w' σ := by
  obtain ⟨calls, hcalls, hquiet⟩ := hw.calls
  exact h.quiet hcalls hquiet

/-- Parts that move no data and set the other globals alike. -/
theorem Related.quietly (h : c.Related w₁ w₂) (hw₁ : w₁.Quietly w₁') (hw₂ : w₂.Quietly w₂')
    (hkey : w₂'.currentEvalKey = w₁'.currentEvalKey)
    (honce : w₂'.starpuInitOnce = w₁'.starpuInitOnce)
    (hstatus : w₂'.starpuInitStatus = w₁'.starpuInitStatus)
    (hrunning : w₂'.starpuRunning = w₁'.starpuRunning) : c.Related w₁' w₂' := by
  obtain ⟨σ₁, σ₂, hs₁, hs₂, halike⟩ := h
  exact ⟨σ₁, σ₂, hs₁.quietly hw₁, hs₂.quietly hw₂, halike.frame hw₁.find hw₂.find hw₁.nextHandle
    hw₂.nextHandle hw₁.states hw₂.states hkey honce hstatus hrunning⟩

/-! ### The parts of a call -/

theorem ensureStarpuRuntime (answers : Answers) :
    Relates c.Related (Iyokan.ensureStarpuRuntime answers) (Iyokan.ensureStarpuRuntime answers)
      (fun _ _ => c.Related) c.Related := by
  intro w₁ w₂ h
  obtain ⟨_, _, -, -, halike⟩ := id h
  have hrelated : c.Related (if w₁.starpuInitOnce then w₁ else w₁.afterInit answers)
      (if w₂.starpuInitOnce then w₂ else w₂.afterInit answers) := by
    rw [halike.starpuInitOnce]
    split_ifs
    · exact h
    · refine h.quietly (quietly_afterInit w₁ answers) (quietly_afterInit w₂ answers)
        halike.currentEvalKey rfl rfl ?_
      simp only [World.afterInit, halike.starpuRunning]
  simp only [exec_ensureStarpuRuntime]
  generalize (if w₁.starpuInitOnce then w₁ else w₁.afterInit answers) = u₁ at hrelated ⊢
  generalize (if w₂.starpuInitOnce then w₂ else w₂.afterInit answers) = u₂ at hrelated ⊢
  obtain ⟨_, _, -, -, halike'⟩ := id hrelated
  by_cases hstatus : u₁.starpuInitStatus = 0
  · rw [if_pos hstatus, if_pos (halike'.starpuInitStatus.trans hstatus)]
    exact hrelated
  · rw [if_neg hstatus, if_neg fun h => hstatus (halike'.starpuInitStatus.symm.trans h)]
    exact ⟨rfl, hrelated⟩

variable [DecidableEq Key]

theorem bindEvalKey (useCufhepp : Bool) (answers : Answers) (evalKey : Key) :
    Relates c.Related (Iyokan.bindEvalKey useCufhepp answers evalKey)
      (Iyokan.bindEvalKey useCufhepp answers evalKey) (fun _ _ => c.Related) c.Related := by
  intro w₁ w₂ h
  obtain ⟨_, _, -, -, halike⟩ := id h
  by_cases haccepts : w₁.Accepts evalKey
  · have haccepts₂ : w₂.Accepts evalKey := by
      unfold World.Accepts at haccepts ⊢
      rwa [halike.currentEvalKey]
    obtain ⟨hkey₁, honce₁, hstatus₁, hrunning₁⟩ := bind_frame w₁ useCufhepp answers evalKey
    obtain ⟨hkey₂, honce₂, hstatus₂, hrunning₂⟩ := bind_frame w₂ useCufhepp answers evalKey
    rw [exec_bindEvalKey_accepted useCufhepp answers haccepts,
      exec_bindEvalKey_accepted useCufhepp answers haccepts₂]
    exact h.quietly (quietly_bind w₁ useCufhepp answers evalKey)
      (quietly_bind w₂ useCufhepp answers evalKey) (hkey₂.trans hkey₁.symm)
      (by rw [honce₁, honce₂, halike.starpuInitOnce])
      (by rw [hstatus₁, hstatus₂, halike.starpuInitStatus])
      (by rw [hrunning₁, hrunning₂, halike.starpuRunning])
  · have haccepts₂ : ¬ w₂.Accepts evalKey := by
      unfold World.Accepts at haccepts ⊢
      rwa [halike.currentEvalKey]
    rw [exec_bindEvalKey_rejected useCufhepp answers haccepts,
      exec_bindEvalKey_rejected useCufhepp answers haccepts₂]
    exact ⟨rfl, h⟩

theorem ensureFor (useCufhepp : Bool) (answers : Answers) (key : Option Key) :
    Relates c.Related (Iyokan.ensureFor useCufhepp answers key)
      (Iyokan.ensureFor useCufhepp answers key) (fun _ _ => c.Related) c.Related := by
  cases key with
  | none => exact ensureStarpuRuntime answers
  | some evalKey =>
      exact (ensureStarpuRuntime answers).bind fun _ _ => bindEvalKey useCufhepp answers evalKey

omit [DecidableEq Key]

theorem after_registerCall (access : Access) (handle : Handle) (σ : Store V) :
    σ.after c.tfhe c.onDevice c.currentEvalKey (access.registerCall handle)
      = σ.register handle access.place := by
  rcases access with ⟨mode, _ | _ | _, address⟩ <;> rfl

/-- One process registers an object it does not have. -/
theorem Since.register (h : c.Since past w σ) (access : Access) :
    c.Since past (w.register access.place access.registerCall)
      (σ.register w.nextHandle access.place) := by
  have := h.calls (calls_register w access)
  rwa [List.foldl_cons, List.foldl_nil, after_registerCall] at this

theorem find_register_of_some {access : Access} (hfree : w.find access.place = none)
    {place : Place} {handle : Handle} (hfind : w.find place = some handle) :
    (w.register access.place access.registerCall).find place = some handle := by
  have hne : place ≠ access.place := by
    rintro rfl
    exact absurd (hfree.symm.trans hfind) (by simp)
  rwa [find_register, if_neg hne]

theorem handleFor (access : Access) (hs₁ hs₂ : List Handle) :
    Relates (fun w₁ w₂ => c.Related w₁ w₂ ∧ Alike.Both w₁ w₂ hs₁ hs₂) (Iyokan.handleFor access)
      (Iyokan.handleFor access) (fun h₁ h₂ w₁ w₂ => c.Related w₁ w₂ ∧
        Alike.Both w₁ w₂ (hs₁ ++ [h₁]) (hs₂ ++ [h₂])) c.Related := by
  rintro w₁ w₂ ⟨⟨σ₁, σ₂, hs₁, hs₂, halike⟩, hboth⟩
  have hnew : ∀ w : World Key, (w.register access.place access.registerCall).find access.place
      = some w.nextHandle := by
    intro w
    rw [find_register, if_pos rfl]
  rw [exec_handleFor, exec_handleFor]
  cases hfind₁ : w₁.find access.place with
  | some h₁ =>
      cases hfind₂ : w₂.find access.place with
      | some h₂ =>
          exact ⟨⟨σ₁, σ₂, hs₁, hs₂, halike⟩,
            List.rel_append hboth (.cons ⟨_, hfind₁, hfind₂⟩ .nil)⟩
      | none =>
          have hmem : access.place ∈ c.P := by
            by_contra hnot
            exact absurd ((halike.registered _ hnot).mpr hfind₂) (by simp [hfind₁])
          refine ⟨⟨σ₁, _, hs₁, hs₂.register access, (halike.symm.register hfind₂ hmem).symm⟩, ?_⟩
          refine List.rel_append (hboth.imp ?_) (.cons ⟨_, hfind₁, hnew w₂⟩ .nil)
          rintro a b ⟨place, ha, hb⟩
          exact ⟨place, ha, find_register_of_some hfind₂ hb⟩
  | none =>
      cases hfind₂ : w₂.find access.place with
      | some h₂ =>
          have hmem : access.place ∈ c.P := by
            by_contra hnot
            exact absurd ((halike.registered _ hnot).mp hfind₁) (by simp [hfind₂])
          refine ⟨⟨_, σ₂, hs₁.register access, hs₂, halike.register hfind₁ hmem⟩, ?_⟩
          refine List.rel_append (hboth.imp ?_) (.cons ⟨_, hnew w₁, hfind₂⟩ .nil)
          rintro a b ⟨place, ha, hb⟩
          exact ⟨place, find_register_of_some hfind₁ ha, hb⟩
      | none =>
          refine ⟨⟨_, _, hs₁.register access, hs₂.register access,
            halike.registerBoth hfind₁ hfind₂⟩, ?_⟩
          refine List.rel_append (hboth.imp ?_) (.cons ⟨_, hnew w₁, hnew w₂⟩ .nil)
          rintro a b ⟨place, ha, hb⟩
          exact ⟨place, find_register_of_some hfind₁ ha, find_register_of_some hfind₂ hb⟩

/-- Both processes find or register all operands. -/
theorem handles (accesses : List Access) :
    Relates c.Related (accesses.mapM Iyokan.handleFor) (accesses.mapM Iyokan.handleFor)
      (fun hs₁ hs₂ w₁ w₂ => c.Related w₁ w₂ ∧ Alike.Both w₁ w₂ hs₁ hs₂ ∧
        hs₁.length = accesses.length) c.Related := by
  let I : List Access → List Handle → List Handle → World Key → World Key → Prop :=
    fun pre hs₁ hs₂ w₁ w₂ => hs₁.length = pre.length ∧ c.Related w₁ w₂ ∧
      Alike.Both w₁ w₂ hs₁ hs₂
  have hloop : Relates (I [] [] []) (accesses.mapM Iyokan.handleFor)
      (accesses.mapM Iyokan.handleFor) (I accesses) c.Related := by
    refine Relates.mapM I fun pre hs₁ hs₂ access post _ => ?_
    rintro w₁ w₂ ⟨hlength, hrelated⟩
    have hbody := handleFor access hs₁ hs₂ w₁ w₂ hrelated
    split at hbody
    · exact ⟨by simp [hlength], hbody⟩
    · exact hbody
    · exact hbody
  exact hloop.weaken (fun w₁ w₂ h => ⟨rfl, h, .nil⟩)
    (fun hs₁ hs₂ w₁ w₂ h => ⟨h.2.1, h.2.2, h.1⟩) fun _ _ h => h

/-! ### Submitting and waiting -/

variable {submission : Submission} {hs₁ hs₂ : List Handle}

/-- The task of a submission, over the handles of its operands. -/
def Submission.task (tfhe : TFHE Key V) (currentEvalKey : Option Key) (submission : Submission)
    (target : Handle) (sources : List Handle) : Task Handle V where
  target := target
  update := submission.output.mode = .RW
  sources := sources
  fn := submission.codelet.run tfhe currentEvalKey

/-- What an accepted task does to the data. -/
theorem Since.insert (h : c.Since past w σ) {handle : Handle} {handles : List Handle}
    (hlength : handles.length = submission.inputs.length) :
    c.Since past ((w.call (submission.insertCall (handle :: handles) 0)).addTask handle)
      (σ.execute c.onDevice (Submission.task c.tfhe c.currentEvalKey submission handle handles)) := by
  have hsources : ((submission.inputs.map Access.mode).zip handles).map Prod.snd = handles := by
    rw [List.map_snd_zip]
    rw [List.length_map, hlength]
  have hafter : σ.after c.tfhe c.onDevice c.currentEvalKey
      (submission.insertCall (handle :: handles) 0) = σ.execute c.onDevice
        ⟨handle, submission.output.mode = .RW,
          ((submission.inputs.map Access.mode).zip handles).map Prod.snd,
          submission.codelet.run c.tfhe c.currentEvalKey⟩ := rfl
  rw [hsources] at hafter
  have := h.call (submission.insertCall (handle :: handles) 0)
  rwa [hafter] at this

/-- Both processes submit a task over the same objects. -/
theorem Related.insert (h : c.Related w₁ w₂) (hboth : Alike.Both w₁ w₂ hs₁ hs₂)
    (hlength : hs₁.length = submission.accesses.length) :
    c.Related ((w₁.call (submission.insertCall hs₁ 0)).addTask (hs₁.headD 0))
      ((w₂.call (submission.insertCall hs₂ 0)).addTask (hs₂.headD 0)) := by
  obtain ⟨σ₁, σ₂, hsince₁, hsince₂, halike⟩ := h
  cases hboth with
  | nil => exact absurd hlength (by simp [Submission.accesses])
  | @cons h₁ h₂ rest₁ rest₂ htarget hrest =>
      have hlength₁ : rest₁.length = submission.inputs.length := Nat.succ.inj hlength
      have hlength₂ : rest₂.length = submission.inputs.length :=
        hrest.length_eq.symm.trans hlength₁
      let task := Submission.task c.tfhe c.currentEvalKey submission
      have hhandles : Alike.Both w₁ w₂ (task h₁ rest₁).handles (task h₂ rest₂).handles :=
        .cons htarget hrest
      have hfn : (task h₂ rest₂).fn = (task h₁ rest₁).fn := rfl
      have hupdate : (task h₂ rest₂).update = (task h₁ rest₁).update := rfl
      have hexecuted := halike.execute hfn hupdate hhandles c.onDevice
      exact ⟨_, _, hsince₁.insert hlength₁, hsince₂.insert hlength₂,
        (hexecuted.callBoth _ _).addTask htarget⟩

theorem Since.acquire (h : c.Since past w σ) (handle : Handle) (mode : AccessMode) :
    c.Since past (w.call (.dataAcquire handle mode)) { σ with acquired := mode } := h.call _

theorem Since.synchronize (h : c.Since past w σ) (handle : Handle) :
    c.Since past ((w.call (.dataAcquire handle .R)).call (.dataRelease handle))
      ({ σ with acquired := .R }.release handle) := (h.acquire handle .R).call _

theorem Since.announce (h : c.Since past w σ) (handle : Handle) :
    c.Since past ((w.call (.dataAcquire handle .W)).call (.dataRelease handle))
      ({ σ with acquired := .W }.release handle) := (h.acquire handle .W).call _

theorem quietly_refuse (w : World Key) (submission : Submission) (handles : List Handle)
    {status : Int} (h : status ≠ 0) : w.Quietly (w.call (submission.insertCall handles status)) :=
  quietly_call w h

/-! ### Tokens -/

theorem taskCompleted (task : IyokanStarpuTask) :
    Relates c.Related (Iyokan.taskCompleted task) (Iyokan.taskCompleted task)
      (fun _ _ => c.Related) c.Related := by
  rintro w₁ w₂ ⟨σ₁, σ₂, hsince₁, hsince₂, halike⟩
  exact ⟨σ₁, σ₂, hsince₁, hsince₂, halike.complete task⟩

theorem synchronizeOutput (answers : Answers) (task : IyokanStarpuTask) :
    Relates c.Related (Iyokan.synchronizeOutput answers task)
      (Iyokan.synchronizeOutput answers task) (fun _ _ => c.Related) c.Related := by
  intro w₁ w₂ h
  obtain ⟨σ₁, σ₂, hsince₁, hsince₂, halike⟩ := id h
  rcases forall₂_getElem? halike.states task with ⟨hnone₁, hnone₂⟩ | ⟨a, b, ha, hb, -, herror, hsame⟩
  · rw [exec_synchronizeOutput_none answers hnone₁, exec_synchronizeOutput_none answers hnone₂]
    exact h
  · rw [exec_synchronizeOutput_some answers ha, exec_synchronizeOutput_some answers hb, herror]
    by_cases hok : a.error = 0
    · rw [if_pos hok, if_pos hok]
      by_cases hacquire : answers.acquire = 0
      · simp only [if_pos hacquire]
        exact ⟨_, _, hsince₁.synchronize a.output, hsince₂.synchronize b.output,
          ((halike.synchronize hsame).callBoth _ _).callBoth _ _⟩
      · simp only [if_neg hacquire]
        refine ⟨trivial, _, _, hsince₁.acquire a.output .R, hsince₂.acquire b.output .R, ?_⟩
        exact ((halike.acquired .R .R).callBoth _ _).fail task answers.acquire
    · rw [if_neg hok, if_neg hok]
      exact ⟨rfl, h⟩

/-! ### Host writes -/

/-- A `mark` function, where StarPU refuses no object of `P`. -/
theorem acquireForWrite (answers : Answers) (failure : String) {place : Place}
    (hgranted : place ∈ c.P → answers.acquire = 0) :
    Relates c.Related (do Iyokan.acquireForWrite answers failure ((← get).find place))
      (do Iyokan.acquireForWrite answers failure ((← get).find place)) (fun _ _ => c.Related)
      c.Related := by
  intro w₁ w₂ h
  obtain ⟨σ₁, σ₂, hsince₁, hsince₂, halike⟩ := id h
  rw [exec_get_bind, exec_get_bind]
  cases hfind₁ : w₁.find place with
  | none =>
      cases hfind₂ : w₂.find place with
      | none => exact h
      | some h₂ =>
          -- only the second process asks StarPU
          have hok : answers.acquire = 0 := by
            refine hgranted (by_contra fun hnot => ?_)
            exact absurd ((halike.registered place hnot).mp hfind₁) (by simp [hfind₂])
          rw [exec_acquireForWrite, if_pos hok]
          exact ⟨_, _, hsince₁, hsince₂.announce h₂,
            (((halike.symm.announce hfind₂ hfind₁).call _).call _).symm⟩
  | some h₁ =>
      cases hfind₂ : w₂.find place with
      | none =>
          have hok : answers.acquire = 0 := by
            refine hgranted (by_contra fun hnot => ?_)
            exact absurd ((halike.registered place hnot).mpr hfind₂) (by simp [hfind₁])
          rw [exec_acquireForWrite, if_pos hok]
          exact ⟨_, _, hsince₁.announce h₁, hsince₂,
            ((halike.announce hfind₁ hfind₂).call _).call _⟩
      | some h₂ =>
          rw [exec_acquireForWrite, exec_acquireForWrite]
          split_ifs with hok
          · exact ⟨_, _, hsince₁.announce h₁, hsince₂.announce h₂,
              ((halike.announceBoth hfind₁ hfind₂).callBoth _ _).callBoth _ _⟩
          · exact ⟨rfl, _, _, hsince₁.acquire h₁ .W, hsince₂.acquire h₂ .W,
              (halike.acquired .W .W).callBoth _ _⟩

theorem configureIyokanStarpu (cpuWorkers cudaDevices : Nat) :
    Relates c.Related (Iyokan.configureIyokanStarpu cpuWorkers cudaDevices)
      (Iyokan.configureIyokanStarpu cpuWorkers cudaDevices) (fun _ _ => c.Related) c.Related := by
  intro w₁ w₂ h
  obtain ⟨_, _, -, -, halike⟩ := id h
  have hactive : (w₂.starpuRunning = true ∨ w₂.starpuInitStatus ≠ -1) ↔
      (w₁.starpuRunning = true ∨ w₁.starpuInitStatus ≠ -1) := by
    rw [halike.starpuRunning, halike.starpuInitStatus]
  have hquietly : ∀ w : World Key, w.Quietly
      { w with configuredCpuWorkers := cpuWorkers, configuredCudaDevices := cudaDevices } :=
    fun w => ⟨rfl, rfl, rfl, [], by simp, by simp⟩
  rw [exec_configureIyokanStarpu, exec_configureIyokanStarpu]
  by_cases hw₁ : w₁.starpuRunning = true ∨ w₁.starpuInitStatus ≠ -1
  · rw [if_pos hw₁, if_pos (hactive.mpr hw₁)]
    exact ⟨rfl, h⟩
  · rw [if_neg hw₁, if_neg fun h => hw₁ (hactive.mp h)]
    exact h.quietly (hquietly w₁) (hquietly w₂) halike.currentEvalKey halike.starpuInitOnce
      halike.starpuInitStatus halike.starpuRunning

/-! ### A shutdown -/

/-- A shutdown takes all handles out of the registries and away from StarPU. -/
theorem Since.shutdown (h : c.Since past w σ) (useCufhepp : Bool) :
    c.Since past (w.shutdown useCufhepp) (w.handles.foldl Store.unregister σ) := by
  have hunregister : c.Since past w.unregister (w.handles.foldl Store.unregister σ) := by
    have hcalls : w.unregister.calls
        = w.calls ++ .taskWaitForAll :: w.handles.map .dataUnregisterNoCoherency := by
      show (w.calls ++ [.taskWaitForAll]) ++ w.handles.map .dataUnregisterNoCoherency = _
      rw [List.append_assoc]
      rfl
    have := h.calls hcalls
    rwa [List.foldl_cons, List.foldl_map] at this
  obtain ⟨calls, hcalls, hquiet⟩ : ∃ calls, (w.shutdown useCufhepp).calls
      = w.unregister.calls ++ calls ∧ ∀ call ∈ calls, call.Quiet := by
    rcases calls_shutdown w useCufhepp with h | h
    · exact ⟨_, h, by simp [LibraryCall.Quiet]⟩
    · exact ⟨_, h, by simp [LibraryCall.Quiet]⟩
  exact hunregister.quiet hcalls hquiet

theorem shutdownIyokanStarpu (useCufhepp : Bool) :
    Relates c.Related (Iyokan.shutdownIyokanStarpu useCufhepp)
      (Iyokan.shutdownIyokanStarpu useCufhepp) (fun _ _ => c.Related) c.Related := by
  intro w₁ w₂ h
  obtain ⟨σ₁, σ₂, hsince₁, hsince₂, halike⟩ := id h
  rw [exec_shutdownIyokanStarpu, exec_shutdownIyokanStarpu, halike.starpuRunning]
  split_ifs
  · exact ⟨_, _, hsince₁.shutdown useCufhepp, hsince₂.shutdown useCufhepp,
      halike.shutdown useCufhepp⟩
  · exact h

end Comparison

end Tangor.Iyokan
