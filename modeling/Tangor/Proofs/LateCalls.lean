/-
Calls after a shutdown.

`shutdownIyokanStarpu` stops StarPU and empties the registries, but the status the gate
calls look at stays that of the start.  What such a call then does is followed here: the
registries know no handle, so its first operand is registered with a runtime that is
gone, and a token that is waited for is acquired from it.  No later call can repair
that, since calls are only ever added.

Together with the invariant of the calls before, this says exactly which runs keep to
what StarPU allows.
-/
import Tangor.Proofs.Lifetime

namespace Tangor.Iyokan

open Throwing

variable {Key : Type}

/-! ### What was not served stays so -/

/-- The calls made are only added to. -/
def Grows (w w' : World Key) : Prop := w.calls <+: w'.calls

instance : Std.Refl (Grows : World Key → World Key → Prop) := ⟨fun w => List.prefix_refl w.calls⟩

instance : IsTrans (World Key) Grows := ⟨fun _ _ _ h h' => List.IsPrefix.trans h h'⟩

theorem Grows.served {w w' : World Key} (h : Grows w w') (hw : w'.Served) : w.Served := by
  obtain ⟨rest, hrest⟩ := h
  unfold World.Served at hw
  rw [← hrest, Starpu.served_append] at hw
  exact hw.1

theorem grows_call (w : World Key) (call : LibraryCall Key) : Grows w (w.call call) :=
  List.prefix_append w.calls [call]

theorem grows_initializeCufhepp (w : World Key) (answers : Answers) (evalKey : Key) :
    Grows w (w.initializeCufhepp answers evalKey) := by
  unfold World.initializeCufhepp
  split_ifs
  · exact List.prefix_refl w.calls
  · exact ((grows_call w _).trans (grows_call _ _)).trans (grows_call _ (.atexit _))
  · exact grows_call w _

theorem grows_ensureStarpuRuntime (answers : Answers) :
    Moves Grows (ensureStarpuRuntime answers : Backend Key PUnit) := by
  intro w
  rw [exec_ensureStarpuRuntime]
  cases w.starpuInitOnce with
  | true => exact List.prefix_refl w.calls
  | false => exact List.prefix_append w.calls _

theorem grows_bindEvalKey [DecidableEq Key] (useCufhepp : Bool) (answers : Answers)
    (evalKey : Key) : Moves Grows (bindEvalKey useCufhepp answers evalKey) := by
  intro w
  by_cases hkey : w.Accepts evalKey
  · rw [exec_bindEvalKey_accepted useCufhepp answers hkey]
    cases useCufhepp with
    | true => exact grows_initializeCufhepp { w with currentEvalKey := some evalKey } answers evalKey
    | false => exact List.prefix_refl w.calls
  · rw [exec_bindEvalKey_rejected useCufhepp answers hkey]
    exact List.prefix_refl w.calls

theorem grows_ensureFor [DecidableEq Key] (useCufhepp : Bool) (answers : Answers)
    (key : Option Key) : Moves Grows (ensureFor useCufhepp answers key) := by
  cases key with
  | none => exact grows_ensureStarpuRuntime answers
  | some evalKey =>
      exact (grows_ensureStarpuRuntime answers).bind fun _ =>
        grows_bindEvalKey useCufhepp answers evalKey

theorem grows_handleFor (access : Access) :
    Moves Grows (handleFor access : Backend Key Handle) := by
  intro w
  rw [exec_handleFor]
  cases w.find access.place with
  | some handle => exact List.prefix_refl w.calls
  | none => rcases access with ⟨mode, _ | _ | _, address⟩ <;> exact List.prefix_append w.calls _

theorem grows_insertTask (answers : Answers) (submission : Submission) (handles : List Handle) :
    Moves Grows (insertTask answers submission handles : Backend Key IyokanStarpuTask) := by
  intro w
  rw [exec_insertTask]
  split_ifs <;> exact grows_call w _

theorem grows_submit (answers : Answers) (submission : Submission) :
    Moves Grows (submit answers submission : Backend Key IyokanStarpuTask) :=
  (Moves.mapM grows_handleFor submission.accesses).bind fun handles =>
    grows_insertTask answers submission handles

theorem grows_synchronizeOutput (answers : Answers) (task : IyokanStarpuTask) :
    Moves Grows (synchronizeOutput answers task : Backend Key PUnit) := by
  intro w
  cases hstate : w.states[task]? with
  | none =>
      rw [exec_synchronizeOutput_none answers hstate]
      exact List.prefix_refl w.calls
  | some state =>
      rw [exec_synchronizeOutput_some answers hstate]
      split_ifs
      · exact (grows_call w _).trans (grows_call _ _)
      · exact grows_call w _
      · exact List.prefix_refl w.calls

theorem grows_waitForTask (answers : Answers) (task : IyokanStarpuTask) :
    Moves Grows (waitForTask answers task : Backend Key PUnit) :=
  Moves.bind (fun w => List.prefix_refl w.calls) fun _ => grows_synchronizeOutput answers task

theorem grows_runIyokanStarpu [DecidableEq Key] (useCufhepp : Bool) (answers : Answers)
    (call : GateCall Key) (thread : ThreadLocal) :
    Moves Grows (runIyokanStarpu useCufhepp answers call thread) := by
  refine (grows_ensureFor useCufhepp answers call.evalKey).bind fun _ => ?_
  refine (grows_submit answers call.submission).bind fun task => ?_
  cases thread.captureActive with
  | true => exact Moves.pure _
  | false => exact (grows_waitForTask answers task).bind fun _ => Moves.pure _

theorem grows_acquireForWrite (answers : Answers) (failure : String) (handle : Option Handle) :
    Moves Grows (acquireForWrite answers failure handle : Backend Key PUnit) := by
  intro w
  cases handle with
  | none => exact List.prefix_refl w.calls
  | some handle =>
      have hacquire := grows_call w (.dataAcquire handle .W)
      have hrelease : Grows w ((w.call (.dataAcquire handle .W)).call (.dataRelease handle)) :=
        hacquire.trans (grows_call _ _)
      rw [exec_acquireForWrite]
      split_ifs
      · exact hrelease
      · exact hacquire

theorem grows_shutdownIyokanStarpu (useCufhepp : Bool) :
    Moves Grows (shutdownIyokanStarpu useCufhepp : Backend Key PUnit) := by
  intro w
  rw [exec_shutdownIyokanStarpu]
  cases w.starpuRunning with
  | false => exact List.prefix_refl w.calls
  | true =>
      have hunregister : Grows w w.unregister := by
        show w.calls <+: w.calls ++ [.taskWaitForAll] ++ _
        rw [List.append_assoc]
        exact List.prefix_append w.calls _
      show w.calls <+: (w.shutdown useCufhepp).calls
      rcases calls_shutdown w useCufhepp with h | h <;> rw [h] <;>
        exact List.IsPrefix.trans hunregister (List.prefix_append _ _)

theorem grows_run [DecidableEq Key] (useCufhepp : Bool) (answers : Answers)
    (thread : ThreadLocal) (call : ApiCall Key) :
    Moves Grows (call.run useCufhepp answers thread) := by
  cases call with
  | configureIyokanStarpu cpuWorkers cudaDevices =>
      intro w
      by_cases hactive : w.starpuRunning ∨ w.starpuInitStatus ≠ -1 <;>
        simp [ApiCall.run, Iyokan.configureIyokanStarpu, hactive, Grows]
  | prepareIyokanStarpu evalKey =>
      exact (grows_ensureFor useCufhepp answers (some evalKey)).bind fun _ => Moves.pure _
  | runIyokanStarpu call => exact grows_runIyokanStarpu useCufhepp answers call thread
  | synchronizeOutput task =>
      exact (grows_synchronizeOutput answers task).bind fun _ => Moves.pure _
  | beginIyokanStarpuCapture =>
      simp only [ApiCall.run]
      split
      · exact Moves.pure _
      · exact Moves.throw _
  | endIyokanStarpuCapture =>
      simp only [ApiCall.run]
      split
      · exact Moves.pure _
      · exact Moves.throw _
  | synchronizeIyokanStarpuCapture =>
      simp only [ApiCall.run]
      split
      · exact (grows_waitForTask answers _).bind fun _ => Moves.pure _
      · exact Moves.pure _
      · exact Moves.throw _
  | markIyokanTLWEHostWrite value =>
      exact (Moves.get.bind fun w => grows_acquireForWrite answers _ _).bind fun _ => Moves.pure _
  | markIyokanTRLWEHostWrite value =>
      exact (Moves.get.bind fun w => grows_acquireForWrite answers _ _).bind fun _ => Moves.pure _
  | markIyokanTRGSWFFTHostWrite value =>
      exact (Moves.get.bind fun w => grows_acquireForWrite answers _ _).bind fun _ => Moves.pure _
  | shutdownIyokanStarpu =>
      exact (grows_shutdownIyokanStarpu useCufhepp).bind fun _ => Moves.pure _

/-- Code run after a call that was not served. -/
theorem unserved_of_grows {α : Type} {m : Backend Key α} (h : Moves Grows m) :
    Ensures (fun w : World Key => ¬ w.Served) m (fun _ w => ¬ w.Served) (fun w => ¬ w.Served) := by
  intro w hw
  have hgrow := h w
  rcases hexec : m.exec w with ⟨text | a, w'⟩ <;> rw [hexec] at hgrow <;>
    exact fun hserved => hw (hgrow.served hserved)

/-! ### What a late call does -/

/-- StarPU is gone and the registries are empty. -/
structure Dead (w : World Key) : Prop where
  down : w.starpu.up = false
  empty : ∀ place, w.find place = none

theorem Live.dead {w : World Key} (hw : Live w) (hstop : w.Stopped) : Dead w where
  down := hw.up.trans hstop.2
  empty := by
    obtain ⟨hph, hpv⟩ := hw.empty hstop.2
    rintro ⟨_ | _, address⟩ <;> simp [World.find, hph, hpv]

theorem Dead.call {w : World Key} (hw : Dead w) {call : LibraryCall Key}
    (hafter : ∀ s : Starpu, s.after call = s) : Dead (w.call call) where
  down := by
    rw [starpu_call, hafter]
    exact hw.down
  empty := hw.empty

theorem Dead.initializeCufhepp {w : World Key} (hw : Dead w) (answers : Answers) (evalKey : Key) :
    Dead (w.initializeCufhepp answers evalKey) := by
  have hcount : Dead (w.call .cudaWorkerGetCount) := hw.call fun _ => rfl
  unfold World.initializeCufhepp
  split_ifs
  · exact hw
  · have hexit : Dead (((w.call .cudaWorkerGetCount).call (.cufheInitialize evalKey)).call
        (.atexit .cleanupIyokanCufhepp)) := (hcount.call fun _ => rfl).call fun _ => rfl
    exact ⟨hexit.down, hexit.empty⟩
  · exact hcount

/-- The check of the key lets the call pass, and nothing starts StarPU again. -/
theorem ensureFor_dead [DecidableEq Key] (useCufhepp : Bool) (answers : Answers)
    (key : Option Key) :
    Ensures (fun w => Live w ∧ w.Stopped ∧ w.Admits key) (ensureFor useCufhepp answers key)
      (fun _ => Dead) (fun _ => False) := by
  rintro w ⟨hw, hstop, hkey⟩
  have hruntime := exec_ensureStarpuRuntime_stopped hw hstop answers
  have hdead := hw.dead hstop
  cases key with
  | none =>
      have hexec : (ensureFor useCufhepp answers none).exec w = (.ok ⟨⟩, w) := hruntime
      rw [hexec]
      exact hdead
  | some evalKey =>
      have hexec : (ensureFor useCufhepp answers (some evalKey)).exec w = _ :=
        (exec_bind_ok hruntime).trans
          (exec_bindEvalKey_accepted useCufhepp answers (hkey evalKey rfl))
      rw [hexec]
      have hbound : Dead { w with currentEvalKey := some evalKey } := ⟨hdead.down, hdead.empty⟩
      cases useCufhepp with
      | true => exact hbound.initializeCufhepp answers evalKey
      | false => exact hbound

/-- The first operand is registered with a runtime that is gone. -/
theorem submit_dead (answers : Answers) (submission : Submission) :
    Ensures (Dead : World Key → Prop) (submit answers submission) (fun _ w => ¬ w.Served)
      (fun w => ¬ w.Served) := by
  have hfirst : Ensures (Dead : World Key → Prop) (handleFor submission.output)
      (fun _ w => ¬ w.Served) (fun w => ¬ w.Served) := by
    intro w hw
    rw [exec_handleFor, hw.empty]
    intro hserved
    exact absurd (hw.down.symm.trans (served_register.mp hserved).2) (by decide)
  have hinputs : Moves Grows (submission.inputs.mapM handleFor : Backend Key (List Handle)) :=
    Moves.mapM grows_handleFor submission.inputs
  have hrest : ∀ handle, Moves Grows ((do
      let handles ← submission.inputs.mapM handleFor
      pure (handle :: handles)) >>= insertTask answers submission :
        Backend Key IyokanStarpuTask) := fun handle =>
    (hinputs.bind fun handles => Moves.pure (handle :: handles)).bind
      (grows_insertTask answers submission)
  have hsplit : (submit answers submission : Backend Key IyokanStarpuTask)
      = handleFor submission.output >>= fun handle => (do
        let handles ← submission.inputs.mapM handleFor
        pure (handle :: handles)) >>= insertTask answers submission := by
    unfold submit Submission.accesses
    rw [List.mapM_cons, bind_assoc]
  rw [hsplit]
  exact hfirst.bind fun handle => unserved_of_grows (hrest handle)

/-- The output of a token is acquired from a runtime that is gone. -/
theorem synchronizeOutput_dead {w : World Key} (hw : Dead w) (answers : Answers)
    {task : IyokanStarpuTask} (hpending : w.Pending task) :
    ¬ ((synchronizeOutput answers task).exec w).2.Served := by
  obtain ⟨state, hstate, herror⟩ := hpending
  have hacquire : ¬ (w.call (.dataAcquire state.output .R)).Served := by
    intro hserved
    exact absurd (hw.down.symm.trans (served_call.mp hserved).2.1) (by decide)
  rw [exec_synchronizeOutput_some answers hstate, if_pos herror]
  intro hserved
  refine hacquire (Grows.served ?_ hserved)
  split_ifs
  · exact grows_call _ _
  · exact List.prefix_refl _

variable [DecidableEq Key] (useCufhepp : Bool)

/-- The calls made in a call are the calls of its code. -/
theorem perform_world (p : Process Key) (call : ApiCall Key) (answers : Answers) :
    (p.perform useCufhepp call answers).2.world
      = ((call.run useCufhepp answers p.thread).exec p.world).2 := by
  unfold Process.perform
  rcases (call.run useCufhepp answers p.thread).exec p.world with ⟨text | thread, w⟩ <;> rfl

theorem perform_grows (p : Process Key) (call : ApiCall Key) (answers : Answers) :
    Grows p.world (p.perform useCufhepp call answers).2.world := by
  rw [perform_world]
  exact grows_run useCufhepp answers p.thread call p.world

/-- **A call that comes too late uses what is gone, or returns as if it had been
served.** -/
theorem perform_late {p : Process Key} (hw : Live p.world) {call : ApiCall Key}
    (hlate : p.Late call) (answers : Answers) :
    ¬ (p.perform useCufhepp call answers).2.world.Served ∨
      (p.Needs call ∧ (p.perform useCufhepp call answers).1 = .ok () ∧
        (p.perform useCufhepp call answers).2.world.starpu.up = false) := by
  cases call with
  | prepareIyokanStarpu evalKey =>
      have hcode : Ensures (fun w => Live w ∧ w.Stopped ∧ w.Admits (some evalKey))
          ((ApiCall.prepareIyokanStarpu evalKey).run useCufhepp answers p.thread)
          (fun _ => Dead) (fun _ => False) :=
        (ensureFor_dead useCufhepp answers (some evalKey)).bind fun _ =>
          Ensures.pure fun w hw => hw
      rcases perform_of_ensures useCufhepp hcode ⟨hw, hlate⟩ with ⟨hok, -, hdead⟩ | ⟨-, hfalse⟩
      · exact Or.inr ⟨trivial, hok, hdead.down⟩
      · exact absurd hfalse id
  | runIyokanStarpu call =>
      have hcode : Ensures (fun w => Live w ∧ w.Stopped ∧ w.Admits call.evalKey)
          ((ApiCall.runIyokanStarpu call).run useCufhepp answers p.thread)
          (fun _ w => ¬ w.Served) (fun w => ¬ w.Served) := by
        refine Ensures.bind ((ensureFor_dead useCufhepp answers call.evalKey).weaken
          (fun _ h => h) (fun _ _ h => h) fun _ h => absurd h id) fun _ => ?_
        refine (submit_dead answers call.submission).bind fun task => unserved_of_grows ?_
        cases p.thread.captureActive with
        | true => exact Moves.pure _
        | false => exact (grows_waitForTask answers task).bind fun _ => Moves.pure _
      refine Or.inl ?_
      rcases perform_of_ensures useCufhepp hcode ⟨hw, hlate⟩ with ⟨-, -, h⟩ | ⟨-, h⟩
      · exact h
      · exact h
  | synchronizeOutput task =>
      refine Or.inl ?_
      rw [perform_world]
      have hstate := state_bind_pure (synchronizeOutput answers task) (fun _ => p.thread) p.world
      intro hserved
      refine synchronizeOutput_dead (hw.dead hlate.1) answers hlate.2 ?_
      rw [← hstate]
      exact hserved
  | synchronizeIyokanStarpuCapture =>
      obtain ⟨hstop, hactive, task, htask, hpending⟩ := hlate
      refine Or.inl ?_
      rw [perform_world]
      have hstate := state_bind_pure (waitForTask answers task) (fun _ => p.thread) p.world
      have hwait : (waitForTask answers task).exec p.world
          = (synchronizeOutput answers task).exec (p.world.complete task) :=
        exec_bind_ok (exec_taskCompleted task p.world)
      have hdead := hw.dead hstop
      have hcomplete : Dead (p.world.complete task) := ⟨hdead.down, hdead.empty⟩
      have hrun : (ApiCall.synchronizeIyokanStarpuCapture : ApiCall Key).run useCufhepp answers
          p.thread = (do waitForTask answers task; return p.thread) := by
        simp [ApiCall.run, Iyokan.synchronizeIyokanStarpuCapture, hactive, htask]
      intro hserved
      refine synchronizeOutput_dead hcomplete answers
        ((pending_complete p.world task).mpr hpending) ?_
      rw [← hwait, ← hstate, ← hrun]
      exact hserved
  | configureIyokanStarpu | beginIyokanStarpuCapture | endIyokanStarpuCapture
  | markIyokanTLWEHostWrite | markIyokanTRLWEHostWrite | markIyokanTRGSWFFTHostWrite
  | shutdownIyokanStarpu => exact absurd hlate id

theorem performAll_grows (p : Process Key) (calls : List (ApiCall Key × Answers)) :
    Grows p.world (p.performAll useCufhepp calls).world := by
  induction calls generalizing p with
  | nil => exact List.prefix_refl _
  | cons entry rest ih => exact (perform_grows useCufhepp p entry.1 entry.2).trans (ih _)

/-! ### Runs -/

/-- Every call to StarPU is served, and a call that needs StarPU returns only where
StarPU is up. -/
def NoDeadUse (p : Process Key) (calls : List (ApiCall Key × Answers)) : Prop :=
  (p.performAll useCufhepp calls).world.Served ∧
    Process.Each useCufhepp (fun p call answers =>
      p.Needs call → (p.perform useCufhepp call answers).1 = .ok () →
        (p.perform useCufhepp call answers).2.world.starpu.up = true) p calls

theorem noDeadUse_of_live {p : Process Key} (hw : Live p.world)
    (calls : List (ApiCall Key × Answers)) :
    NoDeadUse useCufhepp p calls ↔
      Process.Each useCufhepp (fun p call _ => ¬ p.Late call) p calls := by
  induction calls generalizing p with
  | nil => exact ⟨fun _ => trivial, fun _ => ⟨hw.served, trivial⟩⟩
  | cons entry rest ih =>
      obtain ⟨call, answers⟩ := entry
      constructor
      · rintro ⟨hserved, hneeds, hrest⟩
        have hlate : ¬ p.Late call := by
          intro hlate
          rcases perform_late useCufhepp hw hlate answers with hunserved | ⟨hneed, hok, hdown⟩
          · exact hunserved ((performAll_grows useCufhepp _ rest).served hserved)
          · exact absurd (hdown.symm.trans (hneeds hneed hok)) (by decide)
        exact ⟨hlate, (ih (perform_live useCufhepp hw hlate answers).1).mp ⟨hserved, hrest⟩⟩
      · rintro ⟨hlate, hrest⟩
        obtain ⟨hlive, hneeds⟩ := perform_live useCufhepp hw hlate answers
        obtain ⟨hserved, heach⟩ := (ih hlive).mpr hrest
        exact ⟨hserved, hneeds, heach⟩

/-- **The backend uses no dead runtime exactly as long as no call comes too late**: from
the start of the process, every call to StarPU is served, and a call that cannot be
served throws, if and only if none of the calls gets past its checks after a shutdown
has ended StarPU. -/
theorem noDeadUse_iff (calls : List (ApiCall Key × Answers)) :
    NoDeadUse useCufhepp {} calls ↔
      Process.Each useCufhepp (fun p call _ => ¬ p.Late call) {} calls :=
  noDeadUse_of_live useCufhepp live_start calls

omit [DecidableEq Key]

/-- Prepare, shut down, and compute a NOT. -/
def notAfterShutdown : List (ApiCall Nat × Answers) :=
  [(.prepareIyokanStarpu 0, {}), (.shutdownIyokanStarpu, {}),
    (.runIyokanStarpu (.not 16 32), {})]

/-- The output of the NOT is registered with a runtime that is gone. -/
theorem notAfterShutdown_unserved : ¬ NoDeadUse false {} notAfterShutdown := by
  rintro ⟨hserved, -⟩
  have hcalls : (Process.performAll false ({} : Process Nat) notAfterShutdown).world.calls
      = [.starpuInit none 0 0, .atexit .shutdownIyokanStarpu, .taskWaitForAll, .starpuShutdown,
        .vectorDataRegister 0 16, .vectorDataRegister 1 32,
        .taskInsert .notCodelet [(.W, 0), (.R, 1)] 0, .dataAcquire 0 .R, .dataRelease 0] := rfl
  unfold World.Served at hserved
  rw [hcalls] at hserved
  simp [Starpu.Served, Starpu.Serves, Starpu.after] at hserved

end Tangor.Iyokan
