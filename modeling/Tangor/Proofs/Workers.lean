/-
What the codelets leave, on every worker.

The wrappers write one buffer, and what they leave there depends on the contents of the
other buffers alone: nothing is carried over in the host arrays or on the FPGA from one job
to the next (`execute_memory`).  The one exception is a multiplexer on the FPGA whose output
is its when-false operand too: it stores its first result before it loads that operand.

`Libraries.Sound` is what TFHEpp, cuFHEpp and the kernel promise: they compute what they are
named after, up to an error of at most `B`.  If `B` is small enough, so does every codelet on
every worker (`run_encodes`), and a chain of codelets accumulates no error.  The one exception
is the negated multiplexer on the FPGA.
-/
import Tangor.Workers
import Tangor.Proofs.Hogewrapper
import Tangor.Proofs.Compile

namespace Tangor

open Torus YosysJSONparser TaskGraph Fallible

variable {Pointer : Type} {w n : Nat}

/-! ### A wrapper and its buffers -/

section Memory

variable [DecidableEq Pointer] {buffers : Nat → Pointer} {s : Hoge Pointer w n}

/-- What `HomGateWrap` leaves in its first buffer. -/
def Libraries.gate (lib : Libraries w n) (useHoge : Bool) (worker : Nat) (wrapped : WrappedGate)
    (a b : TLWE w n) : TLWE w n :=
  if useHoge ∧ worker = 0 then
    lib.kernel (scaleIndex wrapped.parameters.1) (scaleIndex wrapped.parameters.2.1)
      (scaleIndex wrapped.parameters.2.2) a b
  else lib.homGate wrapped.parameters a b

/-- What `HOGEMUXwrap` leaves there. -/
def Libraries.hogeMux (lib : Libraries w n) (negate : Bool) (select whenTrue whenFalse : TLWE w n) :
    TLWE w n :=
  let first := lib.kernel 0 0 2 select whenTrue
  let second := lib.kernel 2 0 2 select whenFalse
  if negate then -(first - second) + trivial (-(μ w : BitVec w))
  else first + second + trivial (μ w : BitVec w)

/-- What `HomMUXWrap` and `HomNMUXWrap` leave there. -/
def Libraries.mux (lib : Libraries w n) (useHoge negate : Bool) (worker : Nat)
    (select whenTrue whenFalse : TLWE w n) : TLWE w n :=
  if useHoge ∧ worker = 0 then lib.hogeMux negate select whenTrue whenFalse
  else (if negate then lib.homNMUX else lib.homMUX) select whenTrue whenFalse

theorem homGateWrap_memory (lib : Libraries w n) (useHoge : Bool) (worker : Nat)
    (wrapped : WrappedGate) :
    (s.HomGateWrap useHoge lib.kernel lib.homGate wrapped worker buffers).memory
      = Function.update s.memory (buffers 0)
          (lib.gate useHoge worker wrapped (s.memory (buffers 1)) (s.memory (buffers 2))) := by
  unfold Hoge.HomGateWrap Libraries.gate
  split_ifs
  · rfl
  · rfl

theorem hogeMuxWrap_memory (lib : Libraries w n) (negate : Bool)
    (hdistinct : buffers 3 ≠ buffers 0) :
    (s.HOGEMUXwrap lib.kernel negate buffers).memory = Function.update s.memory (buffers 0)
      (lib.hogeMux negate (s.memory (buffers 1)) (s.memory (buffers 2))
        (s.memory (buffers 3))) := by
  cases negate <;>
    simp only [Hoge.HOGEMUXwrap, Hoge.store, Hoge.enqueueTask, Function.update_self,
      Function.update_idem, Function.update_of_ne hdistinct, update_last, Libraries.hogeMux,
      if_true, Bool.false_eq_true, if_false]

/-- If the output is the when-false operand as well, the second run gets what the first one
left there. -/
theorem hogeMuxWrap_aliased (lib : Libraries w n) (negate : Bool)
    (halias : buffers 3 = buffers 0) :
    (s.HOGEMUXwrap lib.kernel negate buffers).memory = Function.update s.memory (buffers 0)
      (lib.hogeMux negate (s.memory (buffers 1)) (s.memory (buffers 2))
        (lib.kernel 0 0 2 (s.memory (buffers 1)) (s.memory (buffers 2)))) := by
  cases negate <;>
    simp only [Hoge.HOGEMUXwrap, Hoge.store, Hoge.enqueueTask, halias, Function.update_self,
      Function.update_idem, update_last, Libraries.hogeMux, if_true, Bool.false_eq_true, if_false]

theorem homMUXWrap_memory (lib : Libraries w n) (useHoge negate : Bool) (worker : Nat)
    (hsafe : useHoge = true → worker = 0 → buffers 3 ≠ buffers 0) :
    (s.HomMUXWrap useHoge lib.kernel (if negate then lib.homNMUX else lib.homMUX) negate worker
        buffers).memory
      = Function.update s.memory (buffers 0) (lib.mux useHoge negate worker
          (s.memory (buffers 1)) (s.memory (buffers 2)) (s.memory (buffers 3))) := by
  unfold Hoge.HomMUXWrap Libraries.mux
  split_ifs with hfpga
  · exact hogeMuxWrap_memory lib negate (hsafe hfpga.1 hfpga.2)
  · rfl
  · rfl

/-- What a CPU worker leaves in the first buffer, from the contents `x` of the others. -/
def Codelet.cpuResult (lib : Libraries w n) (useHoge : Bool) (worker : Nat) (x : Nat → TLWE w n)
    (codelet : Codelet) : TLWE w n :=
  let gate (wrapped : WrappedGate) := lib.gate useHoge worker wrapped (x 0) (x 1)
  match codelet with
  | .clHomNAND => gate .clHomNAND
  | .clHomNOR => gate .clHomNOR
  | .clHomXNOR => gate .clHomXNOR
  | .clHomAND => gate .clHomAND
  | .clHomOR => gate .clHomOR
  | .clHomXOR => gate .clHomXOR
  | .clHomANDNY => gate .clHomANDNY
  | .clHomANDYN => gate .clHomANDYN
  | .clHomORNY => gate .clHomORNY
  | .clHomORYN => gate .clHomORYN
  | .clHomNOT => lib.homNOT (x 0)
  | .clHomMUX => lib.mux useHoge false worker (x 0) (x 1) (x 2)
  | .clHomNMUX => lib.mux useHoge true worker (x 0) (x 1) (x 2)

theorem cpuResult_congr (lib : Libraries w n) (useHoge : Bool) (worker : Nat) {codelet : Codelet}
    {x y : Nat → TLWE w n} (hagree : ∀ i < codelet.arity, x i = y i) :
    codelet.cpuResult lib useHoge worker x = codelet.cpuResult lib useHoge worker y := by
  cases codelet <;> simp [Codelet.cpuResult, Codelet.arity] at hagree ⊢ <;> simp [hagree]

/-- The codelet is a multiplexer, on the FPGA. -/
def Codelet.OnHogeMux (build : Build) (worker : Worker) (codelet : Codelet) : Prop :=
  (codelet = .clHomMUX ∨ codelet = .clHomNMUX) ∧ worker.cuda = false ∧ build.useHoge = true ∧
    worker.id = 0

theorem cpuFunc_memory (lib : Libraries w n) (build : Build) {worker : Worker}
    (hcpu : worker.cuda = false) (codelet : Codelet) (buffers : Nat → Pointer)
    (s : Hoge Pointer w n) (hsafe : codelet.OnHogeMux build worker → buffers 3 ≠ buffers 0) :
    (codelet.cpuFunc lib build worker.id buffers s).memory = Function.update s.memory (buffers 0)
      (codelet.cpuResult lib build.useHoge worker.id fun i => s.memory (buffers (i + 1))) := by
  cases codelet with
  | clHomNOT => rfl
  | clHomMUX =>
      refine homMUXWrap_memory lib _ false _ ?_
      intro huse hid
      exact hsafe ⟨.inl rfl, hcpu, huse, hid⟩
  | clHomNMUX =>
      refine homMUXWrap_memory lib _ true _ ?_
      intro huse hid
      exact hsafe ⟨.inr rfl, hcpu, huse, hid⟩
  | _ => exact homGateWrap_memory lib _ _ _

omit [DecidableEq Pointer] in
/-- What a CPU worker leaves, as a function of the operands. -/
theorem run_cpu (lib : Libraries w n) (build : Build) {worker : Worker}
    (hcpu : worker.cuda = false) (codelet : Codelet) (operands : List (TLWE w n)) :
    codelet.run lib build worker operands
      = codelet.cpuResult lib build.useHoge worker.id fun i => operands.getD i 0 := by
  have hmemory := cpuFunc_memory lib build hcpu codelet id (Hoge.loaded operands)
    fun _ => by decide
  rw [Codelet.run, Codelet.execute, hcpu, if_neg (by decide), hmemory, id_eq,
    Function.update_self]
  rfl

end Memory

/-! ### What the libraries promise -/

/-- The function is named after this gate, with cuFHEpp's order of operands. -/
def Bootstrap.meaning : Bootstrap → List Bool → Option Bool
  | .NandBootstrap, [a, b] => some (!(a && b))
  | .NorBootstrap, [a, b] => some (!(a || b))
  | .XnorBootstrap, [a, b] => some (!(a ^^ b))
  | .AndBootstrap, [a, b] => some (a && b)
  | .OrBootstrap, [a, b] => some (a || b)
  | .XorBootstrap, [a, b] => some (a ^^ b)
  | .AndNYBootstrap, [a, b] => some (!a && b)
  | .AndYNBootstrap, [a, b] => some (a && !b)
  | .OrNYBootstrap, [a, b] => some (!a || b)
  | .OrYNBootstrap, [a, b] => some (a || !b)
  | .MuxBootstrap, [inc, in1, in0] => some (if inc then in1 else in0)
  | .NMuxBootstrap, [inc, in1, in0] => some (!(if inc then in1 else in0))
  | _, _ => none

theorem meaning_length {codelet : Codelet} {bits : List Bool} {b : Bool}
    (h : codelet.meaning bits = some b) : bits.length = codelet.arity := by
  rcases bits with _ | ⟨_, _ | ⟨_, _ | ⟨_, _ | _⟩⟩⟩ <;> cases codelet <;> first | rfl | cases h

/-- `cuda_funcs` calls the function of the same name; only a negation is not listed above. -/
theorem bootstrap_meaning {codelet : Codelet} (hnot : codelet ≠ .clHomNOT) (bits : List Bool) :
    codelet.cudaFunc.meaning bits = codelet.meaning bits := by
  rcases bits with _ | ⟨_, _ | ⟨_, _ | ⟨_, _ | _⟩⟩⟩ <;> cases codelet <;>
    first | rfl | exact absurd rfl hnot

/-- The libraries compute what they are named after, with errors of at most `B` for each
bootstrapping.  A negation bootstraps nothing. -/
structure Libraries.Sound (lib : Libraries w n) (key : Fin n → BitVec w) (B : Int) : Prop where
  homGate : ∀ casign ∈ scales, ∀ cbsign ∈ scales, ∀ offset ∈ scales, ∀ (a b : TLWE w n)
    (t : Bool), Signals t (Int.cast casign * phase key a + Int.cast cbsign * phase key b +
      Int.cast offset * Int.cast (μ w)) →
    Near B ((encode (μ w) t : Int) : BitVec w)
      (phase key (lib.homGate (casign, cbsign, offset) a b))
  homNOT : ∀ a, phase key (lib.homNOT a) = -phase key a
  homMUX : ∀ {a b c : TLWE w n} {s t f : Bool}, Encodes key a s → Encodes key b t →
    Encodes key c f → Near (2 * B) ((encode (μ w) (if s then t else f) : Int) : BitVec w)
      (phase key (lib.homMUX a b c))
  homNMUX : ∀ {a b c : TLWE w n} {s t f : Bool}, Encodes key a s → Encodes key b t →
    Encodes key c f → Near (2 * B) ((encode (μ w) (!(if s then t else f)) : Int) : BitVec w)
      (phase key (lib.homNMUX a b c))
  kernel : GateKernel lib.kernel key B
  cufheNot : ∀ a, phase key (lib.cufhe .NotBootstrap [a]) = -phase key a
  cufhe : ∀ (bootstrap : Bootstrap) {operands : List (TLWE w n)} {bits : List Bool} {b : Bool},
    List.Forall₂ (Encodes key) operands bits → bootstrap.meaning bits = some b →
    Near (2 * B) ((encode (μ w) b : Int) : BitVec w) (phase key (lib.cufhe bootstrap operands))

/-! ### Encodings -/

section Encodings

variable {key : Fin n → BitVec w} {B : Int} {lib : Libraries w n}

/-- `tlweSymDecrypt`: the sign of the phase. -/
def decrypt (key : Fin n → BitVec w) (c : TLWE w n) : Bool := decide (0 < (phase key c).toInt)

/-- An encoding of a bit decrypts to it. -/
theorem Encodes.decrypt (hw : 3 ≤ w) {c : TLWE w n} {b : Bool} (hc : Encodes key c b) :
    decrypt key c = b := by
  obtain ⟨e, he, hphase⟩ := hc
  have hnear : Near |e| ((encode (μ w) b : Int) : BitVec w) (phase key c) :=
    ⟨e, le_refl _, by rw [hphase, Int.cast_add]⟩
  exact decide_sign (signals_of_near hw he hnear)

/-- A small error leaves an encoding. -/
theorem encodes_of_near {c : TLWE w n} {b : Bool} {C : Int} (hC : 2 * C < μ w)
    (hc : Near C ((encode (μ w) b : Int) : BitVec w) (phase key c)) : Encodes key c b := by
  obtain ⟨e, he, hphase⟩ := hc
  exact ⟨e, by omega, by rw [hphase, Int.cast_add]⟩

theorem Encodes.neg {c d : TLWE w n} {b : Bool} (hc : Encodes key c b)
    (hd : phase key d = -phase key c) : Encodes key d (!b) := by
  obtain ⟨e, he, hphase⟩ := hc
  refine ⟨-e, by rwa [abs_neg], ?_⟩
  rw [hd, hphase, ← Int.cast_neg]
  congr 1
  cases b <;> simp [encode] <;> omega

namespace Libraries.Sound

/-- A two-input gate on any CPU worker. -/
theorem gate (hlib : lib.Sound key B) (hw : 3 ≤ w) (useHoge : Bool) (worker : Nat)
    (wrapped : WrappedGate) {a b : TLWE w n} {x y : Bool} (ha : Encodes key a x)
    (hb : Encodes key b y) :
    Near B ((encode (μ w) (wrapped.eval x y) : Int) : BitVec w)
      (phase key (lib.gate useHoge worker wrapped a b)) := by
  -- TFHEpp bootstraps the same combination as the kernel.
  have hcpu : GateKernel (fun i j k => lib.homGate (scales.getD i 0, scales.getD j 0,
      scales.getD k 0)) key B := by
    intro casign hca cbsign hcb offset hoffset
    have hdecode : ∀ c ∈ scales, scales.getD (scaleIndex c) 0 = c := by decide
    simp only [hdecode _ hca, hdecode _ hcb, hdecode _ hoffset]
    exact hlib.homGate casign hca cbsign hcb offset hoffset
  unfold Libraries.gate
  split_ifs
  · exact hlib.kernel.gate hw wrapped ha hb
  · have h := hcpu.gate hw wrapped ha hb
    cases wrapped <;> exact h

theorem gate_encodes (hlib : lib.Sound key B) (hw : 3 ≤ w) (hB : 4 * B < μ w) (useHoge : Bool)
    (worker : Nat) (wrapped : WrappedGate) {a b : TLWE w n} {x y : Bool} (ha : Encodes key a x)
    (hb : Encodes key b y) :
    Encodes key (lib.gate useHoge worker wrapped a b) (wrapped.eval x y) := by
  have hnear := hlib.gate hw useHoge worker wrapped ha hb
  have hnonneg := hnear.nonneg
  exact encodes_of_near (by omega) hnear

/-- A multiplexer on any CPU worker. -/
theorem mux (hlib : lib.Sound key B) (hw : 3 ≤ w) (useHoge : Bool) (worker : Nat)
    {a b c : TLWE w n} {s t f : Bool} (ha : Encodes key a s) (hb : Encodes key b t)
    (hc : Encodes key c f) :
    Near (2 * B) ((encode (μ w) (if s then t else f) : Int) : BitVec w)
      (phase key (lib.mux useHoge false worker a b c)) := by
  unfold Libraries.mux
  by_cases hfpga : useHoge ∧ worker = 0
  · rw [if_pos hfpga]
    have hphase : Near (2 * B) _ (phase key
        (((Hoge.loaded [a, b, c]).HOGEMUXwrap lib.kernel false id).memory (id 0))) :=
      hogeMux_phase hw hlib.kernel (by decide) ha hb hc
    rwa [hogeMuxWrap_memory lib false (by decide), id_eq, Function.update_self] at hphase
  · rw [if_neg hfpga]
    exact hlib.homMUX ha hb hc

/-- A negated multiplexer, on a CPU worker without the FPGA. -/
theorem nmux (hlib : lib.Sound key B) {useHoge : Bool} (worker : Nat)
    (hfpga : ¬ (useHoge ∧ worker = 0)) {a b c : TLWE w n} {s t f : Bool} (ha : Encodes key a s)
    (hb : Encodes key b t) (hc : Encodes key c f) :
    Near (2 * B) ((encode (μ w) (!(if s then t else f)) : Int) : BitVec w)
      (phase key (lib.mux useHoge true worker a b c)) := by
  rw [Libraries.mux, if_neg hfpga]
  exact hlib.homNMUX ha hb hc

/-- What a CUDA worker leaves. -/
theorem cudaFunc (hlib : lib.Sound key B) (hB : 4 * B < μ w) (codelet : Codelet)
    {operands : List (TLWE w n)} {bits : List Bool} {b : Bool}
    (hoperands : List.Forall₂ (Encodes key) operands bits) (hb : codelet.meaning bits = some b) :
    Encodes key (lib.cufhe codelet.cudaFunc operands) b := by
  by_cases hnot : codelet = .clHomNOT
  · subst hnot
    cases hoperands with
    | nil => cases hb
    | cons ha hrest =>
        cases hrest with
        | nil =>
            obtain rfl := Option.some.inj hb
            exact ha.neg (hlib.cufheNot _)
        | cons => cases hb
  · refine encodes_of_near (by omega) (hlib.cufhe _ hoperands ?_)
    rw [bootstrap_meaning hnot, hb]

end Libraries.Sound

/-- The codelet is not the negated multiplexer on the FPGA. -/
def Worker.Computes (build : Build) (worker : Worker) (codelet : Codelet) : Prop :=
  codelet = .clHomNMUX → worker.cuda = false → ¬ (build.useHoge ∧ worker.id = 0)

theorem run_cuda (lib : Libraries w n) (build : Build) {worker : Worker}
    (hcuda : worker.cuda = true) {codelet : Codelet} {operands : List (TLWE w n)}
    (hlength : operands.length = codelet.arity) :
    codelet.run lib build worker operands = lib.cufhe codelet.cudaFunc operands := by
  rw [Codelet.run, Codelet.execute, hcuda, if_pos rfl, CufheppWrap, id_eq, Hoge.store_self]
  congr 1
  refine List.ext_getElem (by simp [hlength]) ?_
  intro i hi hi'
  simp [Hoge.loaded, hi']

/-- **Every codelet computes the gate it is named after on every worker**, but for the negated
multiplexer on the FPGA.  The error of the result is bounded like those of the operands, so
codelets can be chained. -/
theorem run_encodes (hw : 3 ≤ w) (hlib : lib.Sound key B) (hB : 4 * B < μ w) {build : Build}
    {worker : Worker} {codelet : Codelet} (hcomputes : worker.Computes build codelet)
    {operands : List (TLWE w n)} {bits : List Bool} {b : Bool}
    (hoperands : List.Forall₂ (Encodes key) operands bits) (hb : codelet.meaning bits = some b) :
    Encodes key (codelet.run lib build worker operands) b := by
  cases hcuda : worker.cuda with
  | true =>
      rw [run_cuda lib build hcuda (hoperands.length_eq.trans (meaning_length hb))]
      exact hlib.cudaFunc hB codelet hoperands hb
  | false =>
      rw [run_cpu lib build hcuda]
      cases hoperands with
      | nil => cases codelet <;> cases hb
      | cons ha hrest =>
      cases hrest with
      | nil =>
          cases codelet with
          | clHomNOT =>
              obtain rfl := Option.some.inj hb
              exact ha.neg (hlib.homNOT _)
          | _ => cases hb
      | cons hb' hrest =>
      cases hrest with
      | nil =>
          cases codelet with
          | clHomNOT | clHomMUX | clHomNMUX => cases hb
          | _ =>
              obtain rfl := Option.some.inj hb
              exact hlib.gate_encodes hw hB _ _ _ ha hb'
      | cons hc hrest =>
      cases hrest with
      | nil =>
          cases codelet with
          | clHomMUX =>
              obtain rfl := Option.some.inj hb
              exact encodes_of_near (by omega) (hlib.mux hw _ _ ha hb' hc)
          | clHomNMUX =>
              obtain rfl := Option.some.inj hb
              exact encodes_of_near (by omega) (hlib.nmux _ (hcomputes rfl hcuda) ha hb' hc)
          | _ => cases hb
      | cons => cases codelet <;> cases hb

end Encodings

/-! ### Libraries in the clear -/

section Clear

variable {w m : Nat}

/-- A sample of the bit, without mask and error. -/
def clear (b : Bool) : TLWE w m := trivial ((encode (μ w) b : Int) : BitVec w)

theorem clear_near (key : Fin m → BitVec w) (b : Bool) :
    Near 0 ((encode (μ w) b : Int) : BitVec w) (phase key (clear b)) :=
  ⟨0, by simp, by simp [clear]⟩

/-- Libraries that decrypt, compute in the clear, and make no errors. -/
def clearLibraries (key : Fin m → BitVec w) : Libraries w m where
  homGate parameters := clearKernel key (scaleIndex parameters.1) (scaleIndex parameters.2.1)
    (scaleIndex parameters.2.2)
  homNOT a := -a
  homMUX a b c := clear (if decrypt key a then decrypt key b else decrypt key c)
  homNMUX a b c := clear (!(if decrypt key a then decrypt key b else decrypt key c))
  kernel := clearKernel key
  cufhe bootstrap operands :=
    if bootstrap = .NotBootstrap then -operands.headD 0
    else clear ((bootstrap.meaning (operands.map (decrypt key))).getD false)

theorem clearLibraries_sound (hw : 3 ≤ w) (key : Fin m → BitVec w) :
    (clearLibraries key).Sound key 0 where
  homGate := clearKernel_gate key
  homNOT a := map_neg _ a
  homMUX ha hb hc := by
    simp only [clearLibraries, ha.decrypt hw, hb.decrypt hw, hc.decrypt hw, mul_zero]
    exact clear_near key _
  homNMUX ha hb hc := by
    simp only [clearLibraries, ha.decrypt hw, hb.decrypt hw, hc.decrypt hw, mul_zero]
    exact clear_near key _
  kernel := clearKernel_gate key
  cufheNot a := map_neg _ a
  cufhe bootstrap := by
    intro operands bits b hoperands hb
    have hnot : bootstrap ≠ .NotBootstrap := by
      rintro rfl
      simp [Bootstrap.meaning] at hb
    have hbits : operands.map (decrypt key) = bits := by
      rw [← List.forall₂_eq_eq_eq, List.forall₂_map_left_iff]
      exact hoperands.imp fun _ _ h => h.decrypt hw
    simp only [clearLibraries, if_neg hnot, hbits, hb, Option.getD_some, mul_zero]
    exact clear_near key b

end Clear

/-! ### Jobs -/

section Jobs

variable [DecidableEq Pointer]

/-- A multiplexer on the FPGA does not list its output as the when-false operand. -/
def Job.Safe (build : Build) (job : Job Pointer) : Prop :=
  job.codelet.OnHogeMux build job.worker → job.buffers 3 ≠ job.buffers 0

theorem execute_apply (lib : Libraries w n) {build : Build} {job : Job Pointer}
    (hsafe : job.Safe build) (s : Hoge Pointer w n) :
    (job.codelet.execute lib build job.worker job.buffers s).memory
      = job.apply lib build s.memory := by
  unfold Job.apply
  cases hcuda : job.worker.cuda with
  | true =>
      rw [Codelet.run, Codelet.execute, Codelet.execute, hcuda]
      cases job.codelet <;> rfl
  | false =>
      rw [run_cpu lib build hcuda, Codelet.execute, hcuda, if_neg (by decide),
        cpuFunc_memory lib build hcuda job.codelet job.buffers s hsafe]
      congr 1
      refine cpuResult_congr lib _ _ ?_
      intro i hi
      simp [hi]

theorem executeAll_apply (lib : Libraries w n) {build : Build} {jobs : List (Job Pointer)}
    (hsafe : ∀ job ∈ jobs, job.Safe build) (s : Hoge Pointer w n) :
    (executeAll lib build jobs s).memory = jobs.foldl (Job.apply lib build) s.memory := by
  induction jobs generalizing s with
  | nil => rfl
  | cons job jobs ih =>
      obtain ⟨hjob, hjobs⟩ := List.forall_mem_cons.mp hsafe
      rw [List.foldl_cons, ← execute_apply lib hjob]
      exact ih hjobs _

/-- Nothing anywhere. -/
def Hoge.blank : Hoge Pointer w n := ⟨0, 0, 0, 0, 0, 0, 0, 0, 0, 0⟩

/-- Libraries whose kernel counts: it returns its second operand and one. -/
def countingLibraries : Libraries w n where
  homGate _ _ _ := 0
  homNOT _ := 0
  homMUX _ _ _ := 0
  homNMUX _ _ _ := 0
  kernel _ _ _ _ b := b + 1
  cufhe _ _ := 0

/-- Libraries whose kernel counts tell apart the when-false operands. -/
theorem counting_injective (negate : Bool) (select whenTrue : TLWE w n) :
    Function.Injective ((countingLibraries (w := w)).hogeMux negate select whenTrue) := by
  intro x y h
  cases negate with
  | true =>
      have h : -(whenTrue + 1 - (x + 1)) + _ = -(whenTrue + 1 - (y + 1)) + _ := h
      exact add_right_cancel (sub_right_injective (neg_injective (add_right_cancel h)))
  | false =>
      have h : whenTrue + 1 + (x + 1) + _ = whenTrue + 1 + (y + 1) + _ := h
      exact add_right_cancel (add_left_cancel (add_right_cancel h))

/-- A job that is not safe does not do what it means: its second run gets what the first one
left. -/
theorem execute_ne_apply (hw : 0 < w) {build : Build} {job : Job Pointer}
    (haliased : ¬ job.Safe build) :
    (job.codelet.execute countingLibraries build job.worker job.buffers
        (Hoge.blank : Hoge Pointer w n)).memory
      ≠ job.apply countingLibraries build (Hoge.blank : Hoge Pointer w n).memory := by
  obtain ⟨⟨hmux, hcpu, huse, hid⟩, halias⟩ := Classical.not_imp.mp haliased
  have halias := not_not.mp halias
  have hone : (0 : TLWE w n) + 1 ≠ 0 := by
    intro h
    have hbit : (0 : BitVec w) + 1 = 0 := congrFun h 0
    rw [zero_add] at hbit
    have := congrArg BitVec.toNat hbit
    simp [hw.ne'] at this
  intro h
  rw [Job.apply, run_cpu _ build hcpu, Codelet.execute, if_neg (by rw [hcpu]; decide)] at h
  have hvalue := congrFun h (job.buffers 0)
  rw [Function.update_self] at hvalue
  rcases hmux with hmux | hmux <;>
    rw [hmux, Codelet.cpuFunc, Hoge.HomMUXWrap, if_pos ⟨huse, hid⟩,
      hogeMuxWrap_aliased _ _ halias, Function.update_self, Codelet.cpuResult, Libraries.mux,
      if_pos ⟨huse, hid⟩] at hvalue <;>
    exact hone (counting_injective _ _ _ hvalue)

/-- **On workers of every kind the jobs of a run do what they mean, whatever the FPGA and the
host arrays held before**, if no multiplexer on the FPGA lists its output as the when-false
operand.  Such a multiplexer does not. -/
theorem execute_memory (hw : 0 < w) (build : Build) :
    (∀ job : Job Pointer, job.Safe build ↔ ∀ (lib : Libraries w n) (s : Hoge Pointer w n),
      (job.codelet.execute lib build job.worker job.buffers s).memory
        = job.apply lib build s.memory) ∧
    ∀ (lib : Libraries w n) (jobs : List (Job Pointer)), (∀ job ∈ jobs, job.Safe build) →
      ∀ s : Hoge Pointer w n,
        (executeAll lib build jobs s).memory = jobs.foldl (Job.apply lib build) s.memory := by
  refine ⟨fun job => ⟨fun hsafe lib s => execute_apply lib hsafe s, ?_⟩, ?_⟩
  · intro hall
    by_contra haliased
    exact execute_ne_apply hw haliased (hall _ _)
  · intro lib jobs hsafe s
    exact executeAll_apply lib hsafe s

/-- A multiplexer on the FPGA, whose operands share a buffer, a conjunction with cuFHEpp, and
one on the FPGA that writes over its operand. -/
def sharingJobs : List (Job Nat) :=
  [⟨⟨0, false⟩, .clHomMUX, fun i => [0, 1, 1, 2].getD i 0⟩,
    ⟨⟨7, true⟩, .clHomAND, fun i => [2, 0, 1].getD i 0⟩,
    ⟨⟨0, false⟩, .clHomAND, fun i => [0, 0, 2].getD i 0⟩]

/-- The multiplexer of `sharingJobs` with its output as the when-false operand. -/
def aliasedJob : Job Nat := ⟨⟨0, false⟩, .clHomMUX, fun i => [0, 1, 1, 0].getD i 0⟩

theorem sharingJobs_safe : ∀ job ∈ sharingJobs, job.Safe ⟨true, true⟩ := by
  simp [sharingJobs, Job.Safe, Codelet.OnHogeMux]

/-- The three jobs leave the conjunctions they mean; the aliased one is not sure to. -/
theorem execute_memory_sharing :
    (executeAll (clearLibraries clearKey) ⟨true, true⟩ sharingJobs clearOperands).memory 0
        = clear true ∧
      (executeAll (clearLibraries clearKey) ⟨true, true⟩ sharingJobs clearOperands).memory 2
        = clear true ∧
      ¬ ∀ (lib : Libraries 5 1) (s : Hoge Nat 5 1),
        (aliasedJob.codelet.execute lib ⟨true, true⟩ aliasedJob.worker aliasedJob.buffers s).memory
          = aliasedJob.apply lib ⟨true, true⟩ s.memory := by
  have h := @execute_memory Nat 5 1 _ (by decide) ⟨true, true⟩
  rw [h.2 _ _ sharingJobs_safe clearOperands]
  refine ⟨by decide, by decide, ?_⟩
  intro hall
  exact (h.1 aliasedJob).mpr hall ⟨.inl rfl, rfl, rfl, rfl⟩ rfl

end Jobs

end Tangor
