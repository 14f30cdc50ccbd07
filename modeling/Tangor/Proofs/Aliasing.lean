/-
Calls whose output is an operand as well.

A task that lists a written handle once is run by a codelet whose reads and writes do not get
in each other's way, so it does what the task of the call does (`execute_apply`).  A task that
lists one twice is not supported, and nothing can be said.  So a call is safe exactly when it
is `Unaliased`: of the alias patterns with the output only those of `CMUXFFT` with one data
operand have a codelet of their own.
-/
import Tangor.IyokanCodelets
import Tangor.Proofs.Threads

namespace Tangor.Iyokan

open TaskGraph

variable {Tid Key N V : Type}

/-! ### The buffers of a call -/

theorem zip_modes {accesses : List Access} (hmodes : ∀ access ∈ accesses, access.mode = .R)
    {handles : List Handle} (hlength : handles.length = accesses.length) :
    (accesses.map Access.mode).zip handles = handles.map (Prod.mk .R) := by
  induction accesses generalizing handles with
  | nil =>
      obtain rfl := List.eq_nil_of_length_eq_zero hlength
      rfl
  | cons access rest ih =>
      cases handles with
      | nil => exact absurd hlength (by simp)
      | cons handle handles =>
          rw [List.map_cons, List.zip_cons_cons, List.map_cons, hmodes access List.mem_cons_self,
            ih (fun a ha => hmodes a (List.mem_cons_of_mem _ ha)) (Nat.succ.inj hlength)]

theorem buffers_eq (call : GateCall Key) {target : Handle} {sources : List Handle}
    (hlength : sources.length = call.submission.inputs.length) :
    call.buffers (target :: sources) =
      (call.submission.output.mode, target) :: sources.map (Prod.mk .R) := by
  rw [GateCall.buffers, Submission.accesses, List.map_cons, List.zip_cons_cons,
    zip_modes (submission_modes call).2 hlength]

theorem buffers_handles (call : GateCall Key) {target : Handle} {sources : List Handle}
    (hlength : sources.length = call.submission.inputs.length) :
    (call.buffers (target :: sources)).map Prod.snd = target :: sources := by
  rw [buffers_eq call hlength, List.map_cons, List.map_map]
  exact congrArg (List.cons target) (List.map_id sources)

/-- A call's task is supported unless its output is among the other operands. -/
theorem supported_iff (call : GateCall Key) {target : Handle} {sources : List Handle}
    (hlength : sources.length = call.submission.inputs.length) :
    Supported (call.buffers (target :: sources)) ↔ target ∉ sources := by
  rw [buffers_eq call hlength, Supported, List.pairwise_cons]
  constructor
  · rintro ⟨hfirst, -⟩ hmem
    exact (submission_modes call).1 (hfirst _ (List.mem_map_of_mem hmem) rfl).1
  · intro htarget
    refine ⟨fun b hb heq => ?_, ?_⟩
    · obtain ⟨source, hsource, rfl⟩ := List.mem_map.mp hb
      have htarget' : target = source := heq
      exact absurd (htarget' ▸ hsource) htarget
    · rw [List.pairwise_map]
      exact List.pairwise_of_forall fun _ _ _ => ⟨rfl, rfl⟩

/-! ### The codelets -/

section Codelets

variable (tfhe : TFHEpp Key V)

theorem cmuxFFTCodelet_buffer {buffers : Nat → Handle} (hselect : buffers 0 ≠ buffers 1)
    (htrue : buffers 0 ≠ buffers 2) (hfalse : buffers 0 ≠ buffers 3) (memory : Object → V)
    (handle : Handle) :
    cmuxFFTCodelet tfhe buffers memory (.buffer handle) =
      if handle = buffers 0 then tfhe.cmuxFFT (memory (.buffer (buffers 1)))
        (memory (.buffer (buffers 2))) (memory (.buffer (buffers 3)))
      else memory (.buffer handle) := by
  have hselect' : Object.buffer (buffers 0) ≠ .buffer (buffers 1) :=
    fun h => hselect (Object.buffer.inj h)
  have htrue' : Object.buffer (buffers 0) ≠ .buffer (buffers 2) :=
    fun h => htrue (Object.buffer.inj h)
  have hfalse' : Object.buffer (buffers 0) ≠ .buffer (buffers 3) :=
    fun h => hfalse (Object.buffer.inj h)
  rw [cmuxFFTCodelet, tfhe.CMUXFFT_distinct _ _ _ _ _ hselect' htrue' hfalse']
  simp [Function.update_apply]

/-- The operand that is the output has been copied before it is written. -/
theorem cmuxFFTInPlaceTrueCodelet_buffer {buffers : Nat → Handle} (hselect : buffers 0 ≠ buffers 1)
    (hfalse : buffers 0 ≠ buffers 2) (memory : Object → V) (handle : Handle) :
    cmuxFFTInPlaceTrueCodelet tfhe buffers memory (.buffer handle) =
      if handle = buffers 0 then tfhe.cmuxFFT (memory (.buffer (buffers 1)))
        (memory (.buffer (buffers 0))) (memory (.buffer (buffers 2)))
      else memory (.buffer handle) := by
  have hselect' : Object.buffer (buffers 0) ≠ .buffer (buffers 1) :=
    fun h => hselect (Object.buffer.inj h)
  have htrue' : Object.buffer (buffers 0) ≠ .auto .whenTrue := by simp
  have hfalse' : Object.buffer (buffers 0) ≠ .buffer (buffers 2) :=
    fun h => hfalse (Object.buffer.inj h)
  rw [cmuxFFTInPlaceTrueCodelet, tfhe.CMUXFFT_distinct _ _ _ _ _ hselect' htrue' hfalse']
  simp [copyInput, Function.update_apply]

theorem cmuxFFTInPlaceFalseCodelet_buffer {buffers : Nat → Handle} (hselect : buffers 0 ≠ buffers 1)
    (htrue : buffers 0 ≠ buffers 2) (memory : Object → V) (handle : Handle) :
    cmuxFFTInPlaceFalseCodelet tfhe buffers memory (.buffer handle) =
      if handle = buffers 0 then tfhe.cmuxFFT (memory (.buffer (buffers 1)))
        (memory (.buffer (buffers 2))) (memory (.buffer (buffers 0)))
      else memory (.buffer handle) := by
  have hselect' : Object.buffer (buffers 0) ≠ .buffer (buffers 1) :=
    fun h => hselect (Object.buffer.inj h)
  have htrue' : Object.buffer (buffers 0) ≠ .buffer (buffers 2) :=
    fun h => htrue (Object.buffer.inj h)
  have hfalse' : Object.buffer (buffers 0) ≠ .auto .whenFalse := by simp
  rw [cmuxFFTInPlaceFalseCodelet, tfhe.CMUXFFT_distinct _ _ _ _ _ hselect' htrue' hfalse']
  simp [copyInput, Function.update_apply]

variable [Inhabited V] {currentEvalKey : Option Key}

/-- A codelet that finds its output in one buffer only does what the task of its call does. -/
theorem execute_apply (call : GateCall Key) {target : Handle} {sources : List Handle}
    (hlength : sources.length = call.submission.inputs.length) (htarget : target ∉ sources)
    (hkey : ∀ key, call.evalKey = some key → currentEvalKey = some key)
    (memory : Object → V) (handle : Handle) :
    call.submission.codelet.execute tfhe currentEvalKey (fun i => (target :: sources).getD i 0)
        memory (.buffer handle) =
      (Objects.taskOver tfhe.toTFHE call target sources).apply
        (fun handle => memory (.buffer handle)) handle := by
  cases call with
  | binaryGate gate output left right evalKey =>
      obtain ⟨l, r, rfl⟩ := List.length_eq_two.mp hlength
      rw [hkey evalKey rfl]
      simp [GateCall.submission, submitAsync, codeletFor, IyokanCodelet.execute, binaryCodelet,
        copyInput, Objects.taskOver, Task.apply, Task.operands, IyokanCodelet.run,
        GateCall.evalKey, Function.update_apply]
  | not output input =>
      obtain ⟨i, rfl⟩ := List.length_eq_one_iff.mp hlength
      simp [GateCall.submission, submitAsync, IyokanCodelet.execute, notCodelet,
        Objects.taskOver, Task.apply, Task.operands, IyokanCodelet.run, Function.update_apply]
  | mux output select whenTrue whenFalse evalKey =>
      obtain ⟨s, t, f, rfl⟩ := List.length_eq_three.mp hlength
      rw [hkey evalKey rfl]
      simp [GateCall.submission, submitAsync, IyokanCodelet.execute, muxCodelet,
        copyInput, Objects.taskOver, Task.apply, Task.operands, IyokanCodelet.run,
        GateCall.evalKey, Function.update_apply]
  | cmuxFFT output select whenTrue whenFalse =>
      by_cases htrue : output = whenTrue
      · have hsub : (GateCall.cmuxFFT output select whenTrue whenFalse : GateCall Key).submission =
            submitVariableAsync .cmuxFFTInPlaceTrueCodelet ⟨.RW, .trlwe, output⟩
              [⟨.R, .trgswFFT, select⟩, ⟨.R, .trlwe, whenFalse⟩] := if_pos htrue
        rw [hsub] at hlength
        obtain ⟨s, f, rfl⟩ := List.length_eq_two.mp hlength
        have hs : target ≠ s := fun h => htarget (by simp [h])
        have hf : target ≠ f := fun h => htarget (by simp [h])
        simp only [Objects.taskOver, hsub, submitVariableAsync, IyokanCodelet.execute]
        rw [cmuxFFTInPlaceTrueCodelet_buffer tfhe (by exact hs) (by exact hf)]
        simp [Task.apply, Task.operands, IyokanCodelet.run, Function.update_apply]
      by_cases hfalse : output = whenFalse
      · have hsub : (GateCall.cmuxFFT output select whenTrue whenFalse : GateCall Key).submission =
            submitVariableAsync .cmuxFFTInPlaceFalseCodelet ⟨.RW, .trlwe, output⟩
              [⟨.R, .trgswFFT, select⟩, ⟨.R, .trlwe, whenTrue⟩] :=
          (if_neg htrue).trans (if_pos hfalse)
        rw [hsub] at hlength
        obtain ⟨s, t, rfl⟩ := List.length_eq_two.mp hlength
        have hs : target ≠ s := fun h => htarget (by simp [h])
        have ht : target ≠ t := fun h => htarget (by simp [h])
        simp only [Objects.taskOver, hsub, submitVariableAsync, IyokanCodelet.execute]
        rw [cmuxFFTInPlaceFalseCodelet_buffer tfhe (by exact hs) (by exact ht)]
        simp [Task.apply, Task.operands, IyokanCodelet.run, Function.update_apply]
      · have hsub : (GateCall.cmuxFFT output select whenTrue whenFalse : GateCall Key).submission =
            submitVariableAsync .cmuxFFTCodelet ⟨.W, .trlwe, output⟩
              [⟨.R, .trgswFFT, select⟩, ⟨.R, .trlwe, whenTrue⟩, ⟨.R, .trlwe, whenFalse⟩] :=
          (if_neg htrue).trans (if_neg hfalse)
        rw [hsub] at hlength
        obtain ⟨s, t, f, rfl⟩ := List.length_eq_three.mp hlength
        have hs : target ≠ s := fun h => htarget (by simp [h])
        have ht : target ≠ t := fun h => htarget (by simp [h])
        have hf : target ≠ f := fun h => htarget (by simp [h])
        simp only [Objects.taskOver, hsub, submitVariableAsync, IyokanCodelet.execute]
        rw [cmuxFFTCodelet_buffer tfhe (by exact hs) (by exact ht) (by exact hf)]
        simp [Task.apply, Task.operands, IyokanCodelet.run, Function.update_apply]
  | muxWoSE output select whenTrue whenFalse evalKey =>
      obtain ⟨s, t, f, rfl⟩ := List.length_eq_three.mp hlength
      rw [hkey evalKey rfl]
      simp [GateCall.submission, submitMuxWoSEAsync, IyokanCodelet.execute, muxWoSECodelet,
        Objects.taskOver, Task.apply, Task.operands, IyokanCodelet.run,
        GateCall.evalKey, Function.update_apply]

/-- Of a supported task there is one outcome: that of the task of the call. -/
theorem outcome_apply (call : GateCall Key) {target : Handle} {sources : List Handle}
    (hlength : sources.length = call.submission.inputs.length) (htarget : target ∉ sources)
    (hkey : ∀ key, call.evalKey = some key → currentEvalKey = some key)
    {contents contents' : Handle → V}
    (h : Outcome tfhe currentEvalKey call.submission.codelet (call.buffers (target :: sources))
      contents contents') :
    contents' = (Objects.taskOver tfhe.toTFHE call target sources).apply contents := by
  have hhandles : (call.buffers (target :: sources)).map Prod.snd = target :: sources :=
    buffers_handles call hlength
  cases h with
  | unsupported _ hunsupported =>
      exact absurd ((supported_iff call hlength).mpr htarget) hunsupported
  | ran memory _ hloaded =>
      simp only [hhandles, execute_apply tfhe call hlength htarget hkey memory]
      rw [buffers_eq call hlength] at hloaded
      have hsource : ∀ source ∈ sources, memory (.buffer source) = contents source :=
        fun source hmem => hloaded .R source
          (List.mem_cons_of_mem _ (List.mem_map_of_mem hmem)) (by decide)
      have hupdate : call.submission.output.mode = .RW → memory (.buffer target) = contents target :=
        fun hmode => hloaded _ target List.mem_cons_self (by rw [hmode]; decide)
      have hoperands : ∀ x ∈ (Objects.taskOver tfhe.toTFHE call target sources).operands,
          memory (.buffer x) = contents x := by
        intro x hx
        rcases List.mem_cons.mp (Task.operands_subset hx) with rfl | hmem
        · by_cases hmode : call.submission.output.mode = .RW
          · exact hupdate hmode
          · refine absurd ?_ htarget
            simpa [Task.operands, Objects.taskOver, hmode] using hx
        · exact hsource x hmem
      funext handle
      by_cases heq : handle = target
      · rw [heq, if_pos List.mem_cons_self]
        exact ((Objects.taskOver tfhe.toTFHE call target sources).apply_target _).trans
          ((Task.fn_congr _ hoperands).trans (Task.apply_target _ _).symm)
      · rw [Task.apply_frame _ contents (Ne.symm heq)]
        split
        · rename_i hmem
          rw [Task.apply_frame _ _ (Ne.symm heq)]
          exact hsource handle ((List.mem_cons.mp hmem).resolve_left heq)
        · rfl

end Codelets

/-! ### Calls -/

/-- An output that is an operand is one of the objects that are listed for reading, unless
it is one data operand of a `CMUXFFT`. -/
theorem unaliased_iff (call : GateCall Key) :
    call.Unaliased ↔ call.output ∉ call.submission.inputs.map Access.place := by
  cases call with
  | binaryGate | not | mux =>
      simp [GateCall.Unaliased, GateCall.output, GateCall.submission, submitAsync, Access.place]
  | cmuxFFT output select whenTrue whenFalse =>
      simp only [GateCall.Unaliased, GateCall.output, GateCall.submission, submitVariableAsync]
      by_cases htrue : output = whenTrue
      · subst htrue
        simp [Access.place]
      by_cases hfalse : output = whenFalse
      · subst hfalse
        simp [Access.place, htrue]
      · simp [Access.place, htrue, hfalse]
  | muxWoSE output select whenTrue whenFalse evalKey =>
      simp [GateCall.Unaliased, GateCall.output, GateCall.submission, submitMuxWoSEAsync,
        Access.place]

/-- The handles of a call list its output twice exactly when the objects do. -/
theorem target_notMem_iff {find : Place → Option Handle} (hfind : Registry.Unshared find)
    {call : GateCall Key} {target : Handle} {sources : List Handle}
    (htarget : find call.output = some target)
    (hsources : List.Forall₂ (fun access handle => find access.place = some handle)
      call.submission.inputs sources) : target ∉ sources ↔ call.Unaliased := by
  rw [unaliased_iff, not_iff_not, List.mem_map]
  constructor
  · intro hmem
    obtain ⟨access, haccess, hplace⟩ := Fallible.forall₂_mem_right hsources hmem
    exact ⟨access, haccess, hfind access.place call.output target hplace htarget⟩
  · rintro ⟨access, haccess, hplace⟩
    obtain ⟨handle, hmem, hhandle⟩ := Fallible.forall₂_mem_left hsources haccess
    rw [hplace, htarget, Option.some.injEq] at hhandle
    rwa [hhandle]

section Safe

variable [DecidableEq Tid] [DecidableEq Key] [DecidableEq N] [Inhabited V] {main : N}
  {useCufhepp : Bool} {memory : Place → V}

/-- **A call that is about to submit its task is safe exactly when its output is no operand,
or is one data operand of a `CMUXFFT` and not the other.** -/
theorem gateCall_safe_iff [Nontrivial V] (tfhe : TFHEpp Key V) {s : System Tid Key N V}
    (hrun : Relation.ReflTransGen (Step tfhe.toTFHE main useCufhepp)
      (System.start main memory) s)
    {t : Tid} {call : GateCall Key} {handles : List Handle}
    (hpc : (s.threads t).pc = .submitting call handles)
    (hall : handles.length = call.submission.accesses.length) :
    call.Safe tfhe s.world.currentEvalKey s.world.find handles ↔ call.Unaliased := by
  obtain ⟨hkeys, hlinked, hobjects⟩ := (inv_start memory).run hrun
  have hkey := hkeys.pcs t
  rw [hpc] at hkey
  have hpcs := hlinked.pcs t
  rw [hpc] at hpcs
  obtain ⟨target, sources, rfl, htarget, hsources⟩ := hpcs.all hall
  have hunshared : Registry.Unshared s.world.find := hobjects.names.unshared
  have hlength := hsources.length_eq.symm
  rw [← target_notMem_iff hunshared htarget hsources]
  constructor
  · intro hsafe hmem
    have hunsupported := mt (supported_iff call hlength).mp (not_not_intro hmem)
    obtain ⟨v, hv⟩ := exists_ne (call.apply tfhe.toTFHE (fun _ => default) call.output)
    exact hv (hsafe (fun _ => default) (fun _ => default) (fun _ => v) (fun _ _ _ => rfl)
      (.unsupported _ hunsupported) call.output target htarget)
  · intro hmem σ contents contents' hcontents houtcome
    rw [outcome_apply tfhe call hlength hmem hkey houtcome, ← task_apply]
    have hnamed : (call.task tfhe.toTFHE).Named s.world.find
        (Objects.taskOver tfhe.toTFHE call target sources) :=
      ⟨htarget, rfl, List.forall₂_map_left_iff.mpr hsources, rfl⟩
    exact hnamed.apply hunshared hcontents

end Safe

/-! ### Bits in the clear -/

/-- The selected operand as the other one and the masked difference, summed up in the
output. -/
def clearTFHEpp : TFHEpp Unit Bool where
  toTFHE := clearTFHE
  CMUXFFT output select whenTrue whenFalse memory :=
    let memory := Function.update memory output (memory whenTrue ^^ memory whenFalse)
    let memory := Function.update memory output (memory select && memory output)
    Function.update memory output (memory output ^^ memory whenFalse)
  CMUXFFT_distinct := by
    intro output select whenTrue whenFalse memory hselect htrue hfalse
    have hbits : ∀ s a b : Bool, (s && (a ^^ b) ^^ b) = if s then a else b := by decide
    simp [Function.update_of_ne hselect.symm, Function.update_of_ne hfalse.symm, hbits, clearTFHE]

/-- A `CMUXFFT` into its first data operand is safe. -/
theorem gateCall_safe_iff_inPlace : ∃ s : System Unit Unit Unit Bool,
    (s.threads ()).pc = .submitting (.cmuxFFT 0 1 0 2) [0, 1, 2] ∧
      (GateCall.cmuxFFT 0 1 0 2).Safe clearTFHEpp s.world.currentEvalKey s.world.find
        [0, 1, 2] := by
  have hreach : ∃ s : System Unit Unit Unit Bool,
      Relation.ReflTransGen (Step clearTFHEpp.toTFHE () false) (System.start () fun _ => true) s ∧
        (s.threads ()).pc = .submitting (.cmuxFFT 0 1 0 2) [0, 1, 2] := by
    refine reach_head (.call _ () (.cmuxFFT 0 1 0 2) rfl) ?_
    refine reach_head (.ensure _ () none (some _) {} (.ok ⟨⟩) _ rfl rfl) ?_
    refine reach_head (.handleFor _ () _ _ ⟨.RW, .trlwe, 0⟩ 0 _ rfl rfl rfl) ?_
    refine reach_head (.handleFor _ () _ _ ⟨.R, .trgswFFT, 1⟩ 1 _ rfl rfl rfl) ?_
    refine reach_head (.handleFor _ () _ _ ⟨.R, .trlwe, 2⟩ 2 _ rfl rfl rfl) ?_
    exact ⟨_, .refl, rfl⟩
  obtain ⟨s, hrun, hpc⟩ := hreach
  have hdistinct : (0 : Address) ≠ 1 ∧ ¬ ((0 : Address) = 0 ∧ (0 : Address) = 2) := by decide
  exact ⟨s, hpc, (gateCall_safe_iff clearTFHEpp hrun hpc rfl).mpr hdistinct⟩

/-- `runIyokanStarpuNot(x, x)` submits a task that lists a written handle twice. -/
theorem aliasedNot_unsafe : ∃ s : System Unit Unit Unit Bool,
    Relation.ReflTransGen (Step clearTFHEpp.toTFHE () false) (System.start () fun _ => true) s ∧
      (s.threads ()).pc = .submitting (.not 0 0) [0, 0] ∧
      ¬ (GateCall.not 0 0).Safe clearTFHEpp s.world.currentEvalKey s.world.find [0, 0] := by
  have hreach : ∃ s : System Unit Unit Unit Bool,
      Relation.ReflTransGen (Step clearTFHEpp.toTFHE () false) (System.start () fun _ => true) s ∧
        (s.threads ()).pc = .submitting (.not 0 0) [0, 0] ∧
        s.world.find (.persistentHandles, 0) = some 0 := by
    refine reach_head (.call _ () (.not 0 0) rfl) ?_
    refine reach_head (.ensure _ () none (some _) {} (.ok ⟨⟩) _ rfl rfl) ?_
    refine reach_head (.handleFor _ () _ _ ⟨.W, .tlwe, 0⟩ 0 _ rfl rfl rfl) ?_
    refine reach_head (.handleFor _ () _ _ ⟨.R, .tlwe, 0⟩ 0 _ rfl rfl rfl) ?_
    exact ⟨_, .refl, rfl, rfl⟩
  obtain ⟨s, hrun, hpc, hfind⟩ := hreach
  refine ⟨s, hrun, hpc, fun hsafe => ?_⟩
  -- Nothing keeps the output from holding what it held.
  have hkept := hsafe (fun _ => true) (fun _ => true) (fun _ => true) (fun _ _ _ => rfl)
    (.unsupported _ (by decide)) (.persistentHandles, 0) 0 hfind
  exact absurd hkept (by decide)

end Tangor.Iyokan
