/-
Loops that may fail.

A loop over a list whose body returns `Except` succeeds exactly when every round
does.  The lemmas here turn a successful loop into facts about its rounds: the
results of a `mapM`, an invariant of a `foldlM`, or both at once when the loop
accumulates what a reading function would have returned element by element.

Some faults are expected and others are not.  `Decides` gives the two outcomes that are
fine a condition each, and its rules build the conditions of a computation from those of
its parts; what satisfies neither condition ends in an unexpected fault.
-/
import Mathlib.Data.List.Forall2

namespace Fallible

universe u v

variable {ε : Type u} {α β σ : Type v}

theorem ok_bind (a : α) (f : α → Except ε β) : ((.ok a : Except ε α) >>= f) = f a := rfl

@[simp] theorem bind_eq_ok {x : Except ε α} {f : α → Except ε β} {b : β} :
    (x >>= f) = .ok b ↔ ∃ a, x = .ok a ∧ f a = .ok b := by
  cases x with
  | error e => simp [Bind.bind, Except.bind]
  | ok a => simp [Bind.bind, Except.bind]

@[simp] theorem pure_eq_ok {a b : α} : (pure a : Except ε α) = .ok b ↔ a = b := by
  simp [pure, Except.pure]

/-- A fault that neither part of a computation ends in. -/
theorem bind_ne_error {x : Except ε α} {f : α → Except ε β} {e : ε} (hx : x ≠ .error e)
    (hf : ∀ a, f a ≠ .error e) : (x >>= f) ≠ .error e := by
  cases x with
  | error e' => exact fun h => hx (congrArg Except.error (Except.error.inj h))
  | ok a => exact hf a

theorem mapM_cons_eq_ok {f : α → Except ε β} {a : α} {l : List α} {bs : List β} :
    (a :: l).mapM f = .ok bs ↔ ∃ b rest, f a = .ok b ∧ l.mapM f = .ok rest ∧ bs = b :: rest := by
  simp only [List.mapM_cons, bind_eq_ok, pure_eq_ok]
  constructor
  · rintro ⟨b, hb, rest, hrest, rfl⟩
    exact ⟨b, rest, hb, hrest, rfl⟩
  · rintro ⟨b, rest, hb, hrest, rfl⟩
    exact ⟨b, hb, rest, hrest, rfl⟩

/-- A `mapM` succeeds with the results of its rounds. -/
theorem mapM_eq_ok {f : α → Except ε β} {l : List α} {bs : List β} :
    l.mapM f = .ok bs ↔ List.Forall₂ (fun a b => f a = .ok b) l bs := by
  induction l generalizing bs with
  | nil =>
      rw [List.forall₂_nil_left_iff]
      simp only [List.mapM_nil, pure_eq_ok]
      exact eq_comm
  | cons a rest ih =>
      rw [mapM_cons_eq_ok, List.forall₂_cons_left_iff]
      constructor
      · rintro ⟨b, bs', hb, hrest, rfl⟩
        exact ⟨b, bs', hb, ih.mp hrest, rfl⟩
      · rintro ⟨b, bs', hb, hrest, rfl⟩
        exact ⟨b, bs', hb, ih.mpr hrest, rfl⟩

theorem forall₂_mem_left {α β : Type*} {R : α → β → Prop} {l : List α} {m : List β}
    (h : List.Forall₂ R l m) {a : α} (ha : a ∈ l) : ∃ b ∈ m, R a b := by
  induction h with
  | nil => exact absurd ha List.not_mem_nil
  | cons hab _ ih =>
      rcases List.mem_cons.mp ha with rfl | ha
      · exact ⟨_, List.mem_cons_self, hab⟩
      · obtain ⟨b, hb, hR⟩ := ih ha
        exact ⟨b, List.mem_cons_of_mem _ hb, hR⟩

theorem forall₂_mem_right {α β : Type*} {R : α → β → Prop} {l : List α} {m : List β}
    (h : List.Forall₂ R l m) {b : β} (hb : b ∈ m) : ∃ a ∈ l, R a b := forall₂_mem_left h.flip hb

/-- What stands at a position is related to what stands there in the other list. -/
theorem forall₂_getElem?_left {α β : Type*} {R : α → β → Prop} {l : List α} {m : List β}
    (h : List.Forall₂ R l m) {i : Nat} {a : α} (ha : l[i]? = some a) :
    ∃ b, m[i]? = some b ∧ R a b := by
  induction h generalizing i with
  | nil => exact absurd ha (by simp)
  | cons hab _ ih =>
      cases i with
      | zero =>
          obtain rfl := Option.some.inj ha
          exact ⟨_, rfl, hab⟩
      | succ i => exact ih ha

theorem forall₂_getElem?_right {α β : Type*} {R : α → β → Prop} {l : List α} {m : List β}
    (h : List.Forall₂ R l m) {i : Nat} {b : β} (hb : m[i]? = some b) :
    ∃ a, l[i]? = some a ∧ R a b := forall₂_getElem?_left h.flip hb

/-- Related elements with the same images. -/
theorem forall₂_map_eq {α β γ : Type*} {R : α → β → Prop} {l : List α} {m : List β}
    (h : List.Forall₂ R l m) {f : α → γ} {g : β → γ}
    (hfg : ∀ a ∈ l, ∀ b ∈ m, R a b → f a = g b) : l.map f = m.map g := by
  induction h with
  | nil => rfl
  | cons hab _ ih =>
      rw [List.map_cons, List.map_cons, hfg _ List.mem_cons_self _ List.mem_cons_self hab,
        ih fun a ha b hb => hfg a (List.mem_cons_of_mem _ ha) b (List.mem_cons_of_mem _ hb)]

/-- What a list keeps, beside what a related one yields. -/
theorem forall₂_filter_filterMap {α β γ : Type*} {R : α → β → Prop} {S : α → γ → Prop}
    {p : α → Prop} [DecidablePred p] {f : β → Option γ}
    (h : ∀ a b, R a b → p a ∧ (∃ c, f b = some c ∧ S a c) ∨ ¬ p a ∧ f b = none)
    {l : List α} {m : List β} (hlm : List.Forall₂ R l m) :
    List.Forall₂ S (l.filter (p ·)) (m.filterMap f) := by
  induction hlm with
  | nil => exact List.Forall₂.nil
  | cons hab _ ih =>
      rcases h _ _ hab with ⟨hp, c, hc, hS⟩ | ⟨hp, hnone⟩
      · rw [List.filter_cons_of_pos (by simpa using hp), List.filterMap_cons_some hc]
        exact ih.cons hS
      · rw [List.filter_cons_of_neg (by simpa using hp), List.filterMap_cons_none hnone]
        exact ih

theorem mapM_mem {f : α → Except ε β} {l : List α} {bs : List β} (h : l.mapM f = .ok bs)
    {a : α} (ha : a ∈ l) : ∃ b ∈ bs, f a = .ok b := forall₂_mem_left (mapM_eq_ok.mp h) ha

theorem mapM_mem_result {f : α → Except ε β} {l : List α} {bs : List β} (h : l.mapM f = .ok bs)
    {b : β} (hb : b ∈ bs) : ∃ a ∈ l, f a = .ok b := forall₂_mem_right (mapM_eq_ok.mp h) hb

/-- Every round of a `mapM` can succeed, so the whole does. -/
theorem mapM_exists {f : α → Except ε β} {l : List α} (h : ∀ a ∈ l, ∃ b, f a = .ok b) :
    ∃ bs, l.mapM f = .ok bs := by
  induction l with
  | nil => exact ⟨[], rfl⟩
  | cons a rest ih =>
      obtain ⟨b, hb⟩ := h a (by simp)
      obtain ⟨bs, hbs⟩ := ih fun x hx => h x (by simp [hx])
      exact ⟨b :: bs, mapM_cons_eq_ok.mpr ⟨b, bs, hb, hbs, rfl⟩⟩

/-- A fault that no round ends in. -/
theorem mapM_ne_error {f : α → Except ε β} {l : List α} {e : ε} (h : ∀ a ∈ l, f a ≠ .error e) :
    l.mapM f ≠ .error e := by
  induction l with
  | nil => simp [pure, Except.pure]
  | cons a rest ih =>
      rw [List.mapM_cons]
      refine bind_ne_error (h a (by simp)) fun b => ?_
      exact bind_ne_error (ih fun x hx => h x (by simp [hx])) fun bs => by simp [pure, Except.pure]

/-- An invariant of the rounds is an invariant of the loop. -/
theorem foldlM_inv {f : σ → α → Except ε σ} {P : σ → Prop} {l : List α}
    (hstep : ∀ s a s', P s → a ∈ l → f s a = .ok s' → P s') {s s' : σ} (hs : P s)
    (h : l.foldlM f s = .ok s') : P s' := by
  induction l generalizing s with
  | nil =>
      simp only [List.foldlM_nil, pure_eq_ok] at h
      exact h ▸ hs
  | cons a rest ih =>
      simp only [List.foldlM_cons, bind_eq_ok] at h
      obtain ⟨t, ht, hrest⟩ := h
      exact ih (fun s b s' hs hb => hstep s b s' hs (by simp [hb]))
        (hstep s a t hs (by simp) ht) hrest

/-- A loop that accumulates, round by round, what `g` reads off its elements. -/
theorem foldlM_collect {f : σ → α → Except ε σ} {g : α → Except ε β} {P : σ → List β → Prop}
    (hstep : ∀ s a s' bs, P s bs → f s a = .ok s' → ∃ b, g a = .ok b ∧ P s' (bs ++ [b]))
    {l : List α} {s s' : σ} {r : List β} (hs : P s r) (h : l.foldlM f s = .ok s') :
    ∃ bs, l.mapM g = .ok bs ∧ P s' (r ++ bs) := by
  induction l generalizing s r with
  | nil =>
      simp only [List.foldlM_nil, pure_eq_ok] at h
      exact ⟨[], rfl, by simpa [h] using hs⟩
  | cons a rest ih =>
      simp only [List.foldlM_cons, bind_eq_ok] at h
      obtain ⟨t, ht, hrest⟩ := h
      obtain ⟨b, hb, hP⟩ := hstep s a t r hs ht
      obtain ⟨bs, hbs, hP'⟩ := ih hP hrest
      exact ⟨b :: bs, mapM_cons_eq_ok.mpr ⟨b, bs, hb, hbs, rfl⟩, by simpa using hP'⟩

/-! ### Expected faults -/

/-- `x` returns exactly when `ok` holds, and ends in an expected fault exactly when `rejects`
does. -/
structure Decides (expected : ε → Prop) (x : Except ε α) (ok rejects : Prop) : Prop where
  returns : (∃ a, x = .ok a) ↔ ok
  fails : (∃ e, expected e ∧ x = .error e) ↔ rejects

/-- The first element that is not fine is rejected. -/
def Stops (ok rejects : α → Prop) : List α → Prop
  | [] => False
  | a :: l => rejects a ∨ ok a ∧ Stops ok rejects l

section Decides

variable {expected : ε → Prop} {x : Except ε α} {f : α → Except ε β}
  {ok rejects ok' rejects' : Prop}

theorem Decides.self (expected : ε → Prop) (x : Except ε α) :
    Decides expected x (∃ a, x = .ok a) (∃ e, expected e ∧ x = .error e) := ⟨Iff.rfl, Iff.rfl⟩

theorem Decides.pure (a : α) : Decides expected (Pure.pure a : Except ε α) True False where
  returns := iff_true_intro ⟨a, rfl⟩
  fails := iff_false_intro fun ⟨_, _, h⟩ => absurd h nofun

theorem Decides.congr (h : Decides expected x ok rejects) (hok : ok ↔ ok')
    (hrejects : rejects ↔ rejects') : Decides expected x ok' rejects' :=
  ⟨h.returns.trans hok, h.fails.trans hrejects⟩

/-- One part after the other. -/
theorem Decides.bind (hx : Decides expected x ok rejects)
    (hf : ∀ a, x = .ok a → Decides expected (f a) ok' rejects') :
    Decides expected (x >>= f) (ok ∧ ok') (rejects ∨ ok ∧ rejects') := by
  cases x with
  | error e =>
      have hno : ¬ ok := fun h => by
        obtain ⟨a, ha⟩ := hx.returns.mpr h
        exact absurd ha nofun
      refine ⟨?_, ?_⟩
      · exact iff_of_false (fun ⟨b, hb⟩ => absurd hb nofun) fun h => hno h.1
      · rw [← hx.fails]
        constructor
        · rintro ⟨e', he', h⟩
          exact Or.inl ⟨e', he', congrArg Except.error (Except.error.inj h)⟩
        · rintro (⟨e', he', h⟩ | ⟨h, -⟩)
          · exact ⟨e', he', congrArg Except.error (Except.error.inj h)⟩
          · exact absurd h hno
  | ok a =>
      have hyes : ok := hx.returns.mp ⟨a, rfl⟩
      have hnot : ¬ rejects := fun h => by
        obtain ⟨e, _, he⟩ := hx.fails.mpr h
        exact absurd he nofun
      obtain ⟨hreturns, hfails⟩ := hf a rfl
      exact ⟨by rw [ok_bind, hreturns, and_iff_right hyes],
        by rw [ok_bind, hfails, or_iff_right hnot, and_iff_right hyes]⟩

/-- A value that is read first, and what it decides. -/
theorem Decides.read {ok rejects : α → Prop}
    (hf : ∀ a, x = .ok a → Decides expected (f a) (ok a) (rejects a)) :
    Decides expected (x >>= f) (∃ a, x = .ok a ∧ ok a)
      ((∃ e, expected e ∧ x = .error e) ∨ ∃ a, x = .ok a ∧ rejects a) := by
  have hread : Decides expected (x >>= f) ((∃ a, x = .ok a) ∧ ∃ a, x = .ok a ∧ ok a)
      ((∃ e, expected e ∧ x = .error e) ∨ (∃ a, x = .ok a) ∧ ∃ a, x = .ok a ∧ rejects a) :=
    (Decides.self expected x).bind fun a ha => (hf a ha).congr (by simp [ha]) (by simp [ha])
  refine hread.congr ?_ ?_
  · exact and_iff_right_of_imp fun ⟨a, ha, _⟩ => ⟨a, ha⟩
  · exact or_congr Iff.rfl (and_iff_right_of_imp fun ⟨a, ha, _⟩ => ⟨a, ha⟩)

/-- A loop whose rounds are decided by their elements, as long as `P` holds. -/
theorem Decides.foldlM {f : σ → α → Except ε σ} {P : σ → Prop} {ok rejects : α → Prop}
    (hround : ∀ s a, P s → Decides expected (f s a) (ok a) (rejects a))
    (hstep : ∀ s a s', P s → f s a = .ok s' → P s') (l : List α) {s : σ} (hs : P s) :
    Decides expected (l.foldlM f s) (∀ a ∈ l, ok a) (Stops ok rejects l) := by
  induction l generalizing s with
  | nil => exact (Decides.pure s).congr (by simp) Iff.rfl
  | cons a l ih =>
      rw [List.foldlM_cons]
      refine ((hround s a hs).bind fun s' h => ih (hstep s a s' hs h)).congr ?_ Iff.rfl
      rw [List.forall_mem_cons]

end Decides

end Fallible
