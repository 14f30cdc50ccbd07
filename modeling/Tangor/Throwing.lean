/-
Code that changes a state and may throw.

What such code did to the state before it threw stays done, so a state that satisfies
an invariant has to satisfy it after a throw as well.  `Ensures P m Q R` is the triple
for that: started where `P` holds, `m` either returns an `a` where `Q a` holds or throws
where `R` holds.  The rules follow the way code is put together; loops over a list keep
an invariant.  `Relates` is the triple for two runs side by side.
-/
import Mathlib.Order.Defs.Unbundled

namespace Throwing

variable {σ ε α β : Type}

/-- Code over a state `σ` that may throw an `ε`. -/
abbrev Code (σ ε α : Type) := ExceptT ε (StateM σ) α

/-- What the code returns or throws, and the state it leaves. -/
def Code.exec (m : Code σ ε α) (s : σ) : Except ε α × σ := (ExceptT.run m).run s

@[simp] theorem exec_pure (a : α) (s : σ) : (pure a : Code σ ε α).exec s = (.ok a, s) := rfl

@[simp] theorem exec_throw (e : ε) (s : σ) : (throw e : Code σ ε α).exec s = (.error e, s) := rfl

@[simp] theorem exec_get (s : σ) : (get : Code σ ε σ).exec s = (.ok s, s) := rfl

@[simp] theorem exec_modify (f : σ → σ) (s : σ) :
    (modify f : Code σ ε PUnit).exec s = (.ok ⟨⟩, f s) := rfl

theorem exec_bind (m : Code σ ε α) (f : α → Code σ ε β) (s : σ) :
    (m >>= f).exec s = match m.exec s with
      | (.ok a, s') => (f a).exec s'
      | (.error e, s') => (.error e, s') := by
  unfold Code.exec
  rw [ExceptT.run_bind, StateT.run_bind]
  rcases StateT.run (ExceptT.run m) s with ⟨a | e, s'⟩ <;> rfl

theorem exec_bind_ok {m : Code σ ε α} {f : α → Code σ ε β} {s s' : σ} {a : α}
    (h : m.exec s = (.ok a, s')) : (m >>= f).exec s = (f a).exec s' := by
  rw [exec_bind, h]

theorem exec_bind_error {m : Code σ ε α} {f : α → Code σ ε β} {s s' : σ} {e : ε}
    (h : m.exec s = (.error e, s')) : (m >>= f).exec s = (.error e, s') := by
  rw [exec_bind, h]

@[simp] theorem exec_ite (c : Prop) [Decidable c] (m n : Code σ ε α) (s : σ) :
    (if c then m else n).exec s = if c then m.exec s else n.exec s := by
  split <;> rfl

@[simp] theorem exec_get_bind (f : σ → Code σ ε α) (s : σ) :
    (get >>= f).exec s = (f s).exec s := exec_bind_ok rfl

@[simp] theorem exec_modify_bind (g : σ → σ) (f : PUnit → Code σ ε α) (s : σ) :
    (modify g >>= f).exec s = (f ⟨⟩).exec (g s) := exec_bind_ok rfl

@[simp] theorem exec_map (g : α → β) (m : Code σ ε α) (s : σ) :
    (g <$> m).exec s = match m.exec s with
      | (.ok a, s') => (.ok (g a), s')
      | (.error e, s') => (.error e, s') := by
  rw [← bind_pure_comp, exec_bind]
  rcases m.exec s with ⟨a | e, s'⟩ <;> rfl

/-- Returning something else changes no state. -/
theorem state_bind_pure (m : Code σ ε α) (g : α → β) (s : σ) :
    ((m >>= fun a => pure (g a)).exec s).2 = (m.exec s).2 := by
  rw [exec_bind]
  rcases m.exec s with ⟨a | e, s'⟩ <;> rfl

/-! ### Triples -/

/-- From `P`, the code returns into `Q` or throws into `R`. -/
def Ensures (P : σ → Prop) (m : Code σ ε α) (Q : α → σ → Prop) (R : σ → Prop) : Prop :=
  ∀ s, P s → match m.exec s with
    | (.ok a, s') => Q a s'
    | (.error _, s') => R s'

namespace Ensures

variable {P P' R R' : σ → Prop} {Q Q' : α → σ → Prop} {m : Code σ ε α}

theorem weaken (h : Ensures P m Q R) (hpre : ∀ s, P' s → P s) (hpost : ∀ a s, Q a s → Q' a s)
    (hthrow : ∀ s, R s → R' s) : Ensures P' m Q' R' := by
  intro s hs
  have := h s (hpre s hs)
  split at this
  · exact hpost _ _ this
  · exact hthrow _ this

protected theorem pure {a : α} (h : ∀ s, P s → Q a s) : Ensures P (pure a : Code σ ε α) Q R :=
  fun s hs => h s hs

protected theorem bind {f : α → Code σ ε β} {Q' : β → σ → Prop} (hm : Ensures P m Q R)
    (hf : ∀ a, Ensures (Q a) (f a) Q' R) : Ensures P (m >>= f) Q' R := by
  intro s hs
  have := hm s hs
  rw [exec_bind]
  rcases hexec : m.exec s with ⟨a | e, s'⟩
  · rw [hexec] at this
    exact this
  · rw [hexec] at this
    exact hf _ _ this

/-- A loop that collects results keeps an invariant of what it has collected. -/
theorem mapM (I : List β → List α → σ → Prop) {f : β → Code σ ε α} {bs : List β}
    (hbody : ∀ pre as b post, bs = pre ++ b :: post →
      Ensures (I pre as) (f b) (fun a => I (pre ++ [b]) (as ++ [a])) R) :
    Ensures (I [] []) (bs.mapM f) (I bs) R := by
  suffices h : ∀ pre as post, bs = pre ++ post →
      Ensures (I pre as) (post.mapM f) (fun as' => I bs (as ++ as')) R by
    simpa using h [] [] bs rfl
  intro pre as post
  induction post generalizing pre as with
  | nil =>
      intro hsplit
      rw [List.mapM_nil]
      refine Ensures.pure fun s hs => ?_
      rw [hsplit, List.append_nil, List.append_nil]
      exact hs
  | cons b post ih =>
      intro hsplit
      rw [List.mapM_cons]
      refine (hbody pre as b post hsplit).bind fun a => ?_
      refine (ih (pre ++ [b]) (as ++ [a]) (by rw [hsplit, List.append_assoc]; rfl)).bind fun as' => ?_
      refine Ensures.pure fun s hs => ?_
      rwa [List.append_assoc] at hs

end Ensures

/-! ### What code does to the state, whatever it returns -/

/-- The code only moves the state along `ρ`. -/
def Moves (ρ : σ → σ → Prop) (m : Code σ ε α) : Prop := ∀ s, ρ s (m.exec s).2

namespace Moves

variable {ρ : σ → σ → Prop} {m : Code σ ε α}

protected theorem modify {f : σ → σ} (h : ∀ s, ρ s (f s)) :
    Moves ρ (modify f : Code σ ε PUnit) := h

protected theorem ite {c : Prop} [Decidable c] {n : Code σ ε α} (hm : Moves ρ m)
    (hn : Moves ρ n) : Moves ρ (if c then m else n) := by
  split
  · exact hm
  · exact hn

protected theorem bind [IsTrans σ ρ] {f : α → Code σ ε β} (hm : Moves ρ m)
    (hf : ∀ a, Moves ρ (f a)) : Moves ρ (m >>= f) := by
  intro s
  have hs := hm s
  rw [exec_bind]
  rcases hexec : m.exec s with ⟨a | e, s'⟩
  · rw [hexec] at hs
    exact hs
  · rw [hexec] at hs
    exact IsTrans.trans s s' _ hs (hf _ s')

variable [Std.Refl ρ]

protected theorem pure (a : α) : Moves ρ (pure a : Code σ ε α) := fun s => Std.Refl.refl s

protected theorem throw (e : ε) : Moves ρ (throw e : Code σ ε α) := fun s => Std.Refl.refl s

protected theorem get : Moves ρ (get : Code σ ε σ) := fun s => Std.Refl.refl s

variable [IsTrans σ ρ]

theorem mapM {f : β → Code σ ε α} (hf : ∀ b, Moves ρ (f b)) (bs : List β) :
    Moves ρ (bs.mapM f) := by
  induction bs with
  | nil =>
      rw [List.mapM_nil]
      exact Moves.pure []
  | cons b bs ih =>
      rw [List.mapM_cons]
      exact (hf b).bind fun a => ih.bind fun as => Moves.pure (a :: as)

end Moves

/-! ### Code on a part of the state -/

/-- Code over a part of a larger state. -/
def Code.zoom {τ : Type} (part : τ → σ) (put : τ → σ → τ) (m : Code σ ε α) : Code τ ε α :=
  ExceptT.mk fun t => ((m.exec (part t)).1, put t (m.exec (part t)).2)

@[simp] theorem exec_zoom {τ : Type} (part : τ → σ) (put : τ → σ → τ) (m : Code σ ε α) (t : τ) :
    (m.zoom part put).exec t = ((m.exec (part t)).1, put t (m.exec (part t)).2) := rfl

/-! ### Two runs -/

/-- Started in states related by `P`, both return, related by `Q`, or both throw the same,
and the states they leave are related by `R`. -/
def Relates {τ : Type} (P : σ → τ → Prop) (m : Code σ ε α) (n : Code τ ε β)
    (Q : α → β → σ → τ → Prop) (R : σ → τ → Prop) : Prop :=
  ∀ s t, P s t → match m.exec s, n.exec t with
    | (.ok a, s'), (.ok b, t') => Q a b s' t'
    | (.error e, s'), (.error e', t') => e = e' ∧ R s' t'
    | _, _ => False

namespace Relates

variable {τ γ δ : Type} {P : σ → τ → Prop} {m : Code σ ε α} {n : Code τ ε β}
  {Q : α → β → σ → τ → Prop} {R : σ → τ → Prop}

theorem weaken {P' : σ → τ → Prop} {Q' : α → β → σ → τ → Prop} {R' : σ → τ → Prop}
    (h : Relates P m n Q R) (hpre : ∀ s t, P' s t → P s t)
    (hpost : ∀ a b s t, Q a b s t → Q' a b s t) (hthrow : ∀ s t, R s t → R' s t) :
    Relates P' m n Q' R' := by
  intro s t hp
  have := h s t (hpre s t hp)
  rcases hm : m.exec s with ⟨e | a, s'⟩ <;> rcases hn : n.exec t with ⟨e' | b, t'⟩ <;>
    rw [hm, hn] at this
  · exact ⟨this.1, hthrow _ _ this.2⟩
  · exact this
  · exact this
  · exact hpost _ _ _ _ this

protected theorem pure {a : α} {b : β} (h : ∀ s t, P s t → Q a b s t) :
    Relates P (pure a : Code σ ε α) (pure b : Code τ ε β) Q R := h

protected theorem bind {f : α → Code σ ε γ} {g : β → Code τ ε δ} {Q' : γ → δ → σ → τ → Prop}
    (hm : Relates P m n Q R) (hf : ∀ a b, Relates (Q a b) (f a) (g b) Q' R) :
    Relates P (m >>= f) (n >>= g) Q' R := by
  intro s t hp
  have := hm s t hp
  rw [exec_bind, exec_bind]
  rcases hexec : m.exec s with ⟨e | a, s'⟩ <;> rcases hexec' : n.exec t with ⟨e' | b, t'⟩ <;>
    rw [hexec, hexec'] at this
  · exact this
  · exact this.elim
  · exact this.elim
  · exact hf a b s' t' this

/-- Two loops over one list keep a relation of what they have collected. -/
theorem mapM {ι : Type} (I : List ι → List α → List β → σ → τ → Prop) {f : ι → Code σ ε α}
    {g : ι → Code τ ε β} {is : List ι}
    (hbody : ∀ pre as bs i post, is = pre ++ i :: post → Relates (I pre as bs) (f i) (g i)
      (fun a b => I (pre ++ [i]) (as ++ [a]) (bs ++ [b])) R) :
    Relates (I [] [] []) (is.mapM f) (is.mapM g) (I is) R := by
  suffices h : ∀ pre as bs post, is = pre ++ post → Relates (I pre as bs) (post.mapM f)
      (post.mapM g) (fun as' bs' => I is (as ++ as') (bs ++ bs')) R by
    simpa using h [] [] [] is rfl
  intro pre as bs post
  induction post generalizing pre as bs with
  | nil =>
      intro hsplit
      rw [List.mapM_nil, List.mapM_nil]
      refine Relates.pure fun s t hst => ?_
      rw [hsplit, List.append_nil, List.append_nil, List.append_nil]
      exact hst
  | cons i post ih =>
      intro hsplit
      rw [List.mapM_cons, List.mapM_cons]
      refine (hbody pre as bs i post hsplit).bind fun a b => ?_
      refine (ih (pre ++ [i]) (as ++ [a]) (bs ++ [b])
        (by rw [hsplit, List.append_assoc]; rfl)).bind fun as' bs' => ?_
      refine Relates.pure fun s t hst => ?_
      rwa [List.append_assoc, List.append_assoc] at hst

/-- Related parts of larger states stay related, and the rest is untouched. -/
theorem zoom {σ' τ' : Type} {part : σ' → σ} {put : σ' → σ → σ'} {part' : τ' → τ}
    {put' : τ' → τ → τ'} (h : Relates P m n Q R) {P' : σ' → τ' → Prop}
    {Q' : α → β → σ' → τ' → Prop} {R' : σ' → τ' → Prop}
    (hpre : ∀ s t, P' s t → P (part s) (part' t))
    (hpost : ∀ a b s t u v, P' s t → Q a b u v → Q' a b (put s u) (put' t v))
    (hthrow : ∀ s t u v, P' s t → R u v → R' (put s u) (put' t v)) :
    Relates P' (m.zoom part put) (n.zoom part' put') Q' R' := by
  intro s t hp
  have := h _ _ (hpre s t hp)
  rw [exec_zoom, exec_zoom]
  rcases hm : m.exec (part s) with ⟨e | a, s'⟩ <;>
    rcases hn : n.exec (part' t) with ⟨e' | b, t'⟩ <;> rw [hm, hn] at this
  · exact ⟨this.1, hthrow s t _ _ hp this.2⟩
  · exact this.elim
  · exact this.elim
  · exact hpost a b s t _ _ hp this

end Relates

end Throwing
