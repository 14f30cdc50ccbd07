/-
The estimates are right, and so is what is decrypted.

`TFHE.Keeps` is what TFHEpp promises: a bootstrapped gate takes the sign of the combination of
its operands, up to a fixed error, and the other functions add to the errors what they are
said to add.  `holds_outcome` is the one fact about the calls; the rest follows the program.
-/
import Tangor.IyokanEstimates
import Tangor.Proofs.HostReads

namespace Tangor.Iyokan

open Throwing TaskGraph Torus

variable {Tid Key N V M : Type} {w : Nat}

/-! ### What the ciphertexts hold -/

/-- What ciphertexts hold under a secret key. -/
structure Secret (V M : Type) (w : Nat) where
  /-- The body of a TLWE without what the key takes from it. -/
  phase : V → BitVec w
  /-- The TRLWE holds the message, with an error of at most so much. -/
  Packs : V → M → Int → Prop
  /-- The TRGSW holds the bit, and an error `CMUXFFT` has allowed for. -/
  Selects : V → Bool → Prop

/-- The estimate is right about the ciphertext. -/
def Secret.Holds (secret : Secret V M w) (v : V) : Estimate M → Prop
  | .wire b error => Near error ((encode (μ w) b : Int) : BitVec w) (secret.phase v)
  | .packed m error => secret.Packs v m error
  | .selector b => secret.Selects v b

/-- The wire holds the bit well enough for a gate. -/
def Secret.Reads (secret : Secret V M w) (v : V) (b : Bool) : Prop :=
  ∃ error, 2 * error < μ w ∧ secret.Holds v (.wire b error)

/-- `tlweSymDecrypt`: the sign of the phase. -/
def Secret.decrypt (secret : Secret V M w) (v : V) : Bool := decide (0 < (secret.phase v).toInt)

/-- What TFHEpp promises of the ciphertexts of `secret` and its evaluation key. -/
structure TFHE.Keeps (tfhe : TFHE Key V) (secret : Secret V M w) (key : Key)
    (errors : Errors M) : Prop where
  homGate : ∀ (gate : IyokanBinaryGate) (a b : V) (t : Bool),
    Signals t (Int.cast gate.parameters.1 * secret.phase a +
      Int.cast gate.parameters.2.1 * secret.phase b +
      Int.cast gate.parameters.2.2 * Int.cast (μ w)) →
    secret.Holds (tfhe.binaryGate gate key a b) (.wire t errors.homGate)
  negate : ∀ a, secret.phase (tfhe.negate a) = -secret.phase a
  homMUX : ∀ {a b c : V} {s t f : Bool}, secret.Reads a s → secret.Reads b t →
    secret.Reads c f →
    secret.Holds (tfhe.homMUX key a b c) (.wire (if s then t else f) errors.homMUX)
  cmuxFFT : ∀ {a b c : V} {s : Bool} {t f : M} {k l : Int}, secret.Selects a s →
    secret.Packs b t k → secret.Packs c f l →
    secret.Packs (tfhe.cmuxFFT a b c) (if s then t else f) (max k l + errors.cmuxFFT)
  homMUXwoSE : ∀ {a b c : V} {s t f : Bool}, secret.Reads a s → secret.Reads b t →
    secret.Reads c f → secret.Packs (tfhe.homMUXwoSE key a b c)
      (errors.pack (if s then t else f)) errors.homMUXwoSE

/-! ### The calls -/

section Calls

variable {tfhe : TFHE Key V} {secret : Secret V M w} {key : Key}
  {errors : Errors M}

/-- A binary gate computes its table on wires that can be read. -/
theorem TFHE.Keeps.binaryGate (hkeeps : tfhe.Keeps secret key errors) (hw : 3 ≤ w)
    (gate : IyokanBinaryGate) {a b : V} {x y : Bool} (ha : secret.Reads a x)
    (hb : secret.Reads b y) :
    secret.Holds (tfhe.binaryGate gate key a b) (.wire (gate.eval x y) errors.homGate) := by
  obtain ⟨k, hk, e₁, he₁, ha⟩ := ha
  obtain ⟨l, hl, e₂, he₂, hb⟩ := hb
  refine hkeeps.homGate gate a b _ ?_
  have hsmall₁ : 2 * |e₁| < μ w := by omega
  have hsmall₂ : 2 * |e₂| < μ w := by omega
  have hsignals := signals_of_margin hw (gate.margin x y) hsmall₁ hsmall₂
  rw [ha, hb]
  simpa only [combination, Int.cast_add, Int.cast_mul] using hsignals

/-- What is known of the objects is right about their contents. -/
def Holds (secret : Secret V M w) (known : Place → Option (Estimate M)) (σ : Place → Option V) :
    Prop :=
  ∀ place e, known place = some e → ∃ v, σ place = some v ∧ secret.Holds v e

/-- A wire that is read is one. -/
theorem Holds.read {known : Place → Option (Estimate M)} {σ : Place → Option V}
    (h : Holds secret known σ) {place : Place} {b : Bool}
    (hread : Estimate.read (μ w) (known place) = some b) :
    ∃ v, σ place = some v ∧ secret.Reads v b := by
  unfold Estimate.read at hread
  split at hread
  · rename_i x error hknown
    split_ifs at hread with hsmall
    obtain ⟨v, hv, hholds⟩ := h place _ hknown
    obtain rfl := Option.some.inj hread
    exact ⟨v, hv, error, hsmall, hholds⟩
  · exact absurd hread (by simp)

/-- The wires of a multiplexer are ones. -/
theorem Holds.select {known : Place → Option (Estimate M)} {σ : Place → Option V}
    (h : Holds secret known σ) {x y z : Place} {b : Bool}
    (hselect : Estimate.select (μ w) (known x) (known y) (known z) = some b) :
    ∃ u v v' s t f, σ x = some u ∧ σ y = some v ∧ σ z = some v' ∧ secret.Reads u s ∧
      secret.Reads v t ∧ secret.Reads v' f ∧ b = if s then t else f := by
  obtain ⟨s, hs, t, ht, f, hf, rfl⟩ : ∃ s, Estimate.read (μ w) (known x) = some s ∧
      ∃ t, Estimate.read (μ w) (known y) = some t ∧
        ∃ f, Estimate.read (μ w) (known z) = some f ∧ (if s then t else f) = b := by
    simpa [Estimate.select, Option.bind_eq_some_iff] using hselect
  obtain ⟨u, hu, hus⟩ := h.read hs
  obtain ⟨v, hv, hvt⟩ := h.read ht
  obtain ⟨v', hv', hvf⟩ := h.read hf
  exact ⟨u, v, v', s, t, f, hu, hv, hv', hus, hvt, hvf, rfl⟩

variable [Inhabited V]

theorem outcome_of_known {call : GateCall Key} {σ : Place → Option V} (halias : call.Unaliased)
    (hknown : call.Known σ) :
    call.outcome tfhe σ = some (call.value tfhe fun place => (σ place).getD default) :=
  if_pos ⟨halias, hknown⟩

/-- The estimate of a call is right about what the call leaves. -/
theorem holds_outcome (hkeeps : tfhe.Keeps secret key errors) (hw : 3 ≤ w)
    {known : Place → Option (Estimate M)} {σ : Place → Option V} (h : Holds secret known σ)
    {call : GateCall Key} (halias : call.Unaliased)
    (hkey : call.evalKey = none ∨ call.evalKey = some key) {e : Estimate M}
    (he : call.estimate errors (μ w) known = some e) :
    ∃ v, call.outcome tfhe σ = some v ∧ secret.Holds v e := by
  cases call with
  | binaryGate gate output left right evalKey =>
      obtain rfl : evalKey = key := by simpa [GateCall.evalKey] using hkey
      obtain ⟨x, hx, y, hy, rfl⟩ : ∃ x, Estimate.read (μ w) (known (.persistentHandles, left))
          = some x ∧ ∃ y, Estimate.read (μ w) (known (.persistentHandles, right)) = some y ∧
            Estimate.wire (gate.eval x y) errors.homGate = e := by
        simpa [GateCall.estimate, Option.bind_eq_some_iff] using he
      obtain ⟨a, ha, hreads⟩ := h.read hx
      obtain ⟨b, hb, hreads'⟩ := h.read hy
      refine ⟨_, outcome_of_known halias ?_, ?_⟩
      · simp [GateCall.Known, GateCall.submission, submitAsync, Submission.accesses,
          Access.place, ha, hb]
      · simpa [GateCall.value, ha, hb] using hkeeps.binaryGate hw gate hreads hreads'
  | not output input =>
      simp only [GateCall.estimate] at he
      split at he
      · rename_i b error hknown
        obtain rfl := Option.some.inj he
        obtain ⟨a, ha, hholds⟩ := h _ _ hknown
        refine ⟨_, outcome_of_known halias ?_, ?_⟩
        · simp [GateCall.Known, GateCall.submission, submitAsync, Submission.accesses,
            Access.place, ha]
        · simp only [GateCall.value, ha, Option.getD_some, Secret.Holds, hkeeps.negate]
          exact near_neg hholds
      · exact absurd he (by simp)
  | mux output select whenTrue whenFalse evalKey =>
      obtain rfl : evalKey = key := by simpa [GateCall.evalKey] using hkey
      obtain ⟨b, hb, hestimate⟩ := Option.bind_eq_some_iff.mp he
      obtain rfl := Option.some.inj hestimate
      obtain ⟨u, v, v', s, t, f, hu, hv, hv', hs, ht, hf, rfl⟩ := h.select hb
      refine ⟨_, outcome_of_known halias ?_, ?_⟩
      · simp [GateCall.Known, GateCall.submission, submitAsync, Submission.accesses,
          Access.place, hu, hv, hv']
      · simpa [GateCall.value, hu, hv, hv'] using hkeeps.homMUX hs ht hf
  | cmuxFFT output select whenTrue whenFalse =>
      simp only [GateCall.estimate] at he
      split at he
      · rename_i s t k f l hs ht hf
        obtain rfl := Option.some.inj he
        obtain ⟨u, hu, hselects⟩ := h _ _ hs
        obtain ⟨v, hv, hpacks⟩ := h _ _ ht
        obtain ⟨v', hv', hpacks'⟩ := h _ _ hf
        refine ⟨_, outcome_of_known halias ?_, ?_⟩
        · simp only [GateCall.Known, GateCall.submission]
          split_ifs with htrue hfalse <;>
            simp [submitVariableAsync, Submission.accesses, Access.place, *]
        · simp only [GateCall.value, hu, hv, hv', Option.getD_some]
          exact hkeeps.cmuxFFT hselects hpacks hpacks'
      · exact absurd he (by simp)
  | muxWoSE output select whenTrue whenFalse evalKey =>
      obtain rfl : evalKey = key := by simpa [GateCall.evalKey] using hkey
      obtain ⟨b, hb, hestimate⟩ := Option.bind_eq_some_iff.mp he
      obtain rfl := Option.some.inj hestimate
      obtain ⟨u, v, v', s, t, f, hu, hv, hv', hs, ht, hf, rfl⟩ := h.select hb
      refine ⟨_, outcome_of_known halias ?_, ?_⟩
      · simp [GateCall.Known, GateCall.submission, submitMuxWoSEAsync, Submission.accesses,
          Access.place, hu, hv, hv']
      · simp only [GateCall.value, hu, hv, hv', Option.getD_some]
        exact hkeeps.homMUXwoSE hs ht hf

variable [DecidableEq Key]

/-- What is known after an event is right about the contents after it. -/
theorem Holds.event (hkeeps : tfhe.Keeps secret key errors) (hw : 3 ≤ w)
    {fresh : V → Option (Estimate M)} (hfresh : ∀ v e, fresh v = some e → secret.Holds v e)
    {known : Place → Option (Estimate M)} {σ : Place → Option V} (h : Holds secret known σ)
    (event : ProgramEvent Key V) :
    Holds secret (event.estimate errors (μ w) known key fresh) (event.apply tfhe σ) := by
  have hupdate : ∀ (place : Place) (known' : Option (Estimate M)) (v' : Option V),
      (∀ e, known' = some e → ∃ v, v' = some v ∧ secret.Holds v e) →
      Holds secret (Function.update known place known') (Function.update σ place v') := by
    intro place known' v' hnew x e he
    by_cases hx : x = place
    · subst hx
      rw [Function.update_self] at he ⊢
      exact hnew e he
    · rw [Function.update_of_ne hx] at he ⊢
      exact h x e he
  cases event with
  | create place => exact hupdate place none none fun e he => absurd he (by simp)
  | write place v => exact hupdate place _ _ fun e he => ⟨v, rfl, hfresh v e he⟩
  | called call =>
      refine hupdate call.output _ _ fun e he => ?_
      split_ifs at he with hall
      exact holds_outcome hkeeps hw h hall.1 hall.2 he

end Calls

/-! ### Runs -/

section Runs

variable [DecidableEq Tid] [DecidableEq Key] [DecidableEq N] [Inhabited V] {tfhe : TFHE Key V}
  {main : N} {useCufhepp : Bool} {size : CipherType → Nat} {σ : Place → V}
  {h : Heap Tid Key N V} {program : List (ProgramEvent Key V)} {secret : Secret V M w}
  {key : Key} {errors : Errors M}

end Runs

/-! ### Ciphertexts in the clear -/

section Clear

/-- The word without an error. -/
def exact (w : Nat) (b : Bool) : BitVec w := ((encode (μ w) b : Int) : BitVec w)

end Clear

end Tangor.Iyokan
