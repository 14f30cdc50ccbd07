/-
A submission that fails.

By the time `starpu_task_insert` reports a failure, a gate call has started StarPU, bound
its key and registered its operands.  It throws, and its callback state is deleted; the
rest stays.  That StarPU runs and that the key is bound can be noticed later, and so it can
that a `mark` function asks StarPU about an operand.  Nothing else can: `Alike` relates the
process after the failed call to one that has only prepared StarPU, and all later calls keep
it, return the same and throw the same.
-/
import Tangor.Proofs.Alike

namespace Tangor.Iyokan

open Throwing TaskGraph

variable {Tid Key V : Type}

/-! ### The parts of a call, with the callbacks -/

theorem exec_frameInsertTask (answers : Answers) (submission : Submission) (handles : List Handle)
    (f : Frame Key) :
    (Frame.insertTask answers submission handles).exec f =
      let w := f.world.call (submission.insertCall handles answers.insert)
      if answers.insert = 0 then
        (.ok f.world.states.length, { f with
          world := w.addTask (handles.headD 0)
          callbacks := f.callbacks.new.attach f.world.states.length f.callbacks.allocated })
      else (.error submission.failure, { f with
        world := w
        callbacks := f.callbacks.new.delete f.callbacks.allocated }) := by
  by_cases hinsert : answers.insert = 0
  · simp [Frame.insertTask, exec_bind, hinsert, onWorld]
    exact ⟨rfl, rfl, rfl⟩
  · simp [Frame.insertTask, exec_bind, hinsert, onWorld]
    rfl

theorem exec_onThread {α : Type} (g : ThreadLocal → Except String (α × ThreadLocal))
    (f : Frame Key) :
    (onThread g).exec f = match g f.thread with
      | .ok (a, thread) => (.ok a, { f with thread := thread })
      | .error text => (.error text, f) := by
  rw [onThread, exec_get_bind]
  rcases g f.thread with text | ⟨a, thread⟩ <;> rfl

/-! ### The calls are those of `ApiCall.run` -/

/-- The globals of a frame, and its thread. -/
def Frame.Shows (thread : ThreadLocal) (f : Frame Key) (w : World Key) : Prop :=
  f.world = w ∧ f.thread = thread

theorem shows_onWorld {α : Type} (m : Backend Key α) (thread : ThreadLocal) :
    Relates (Frame.Shows thread) (onWorld m) m (fun a b f w => a = b ∧ f.Shows thread w)
      (Frame.Shows thread) := by
  rintro f _ ⟨rfl, rfl⟩
  rw [onWorld, exec_zoom]
  rcases m.exec f.world with ⟨text | a, w⟩ <;> exact ⟨rfl, rfl, rfl⟩

theorem shows_insertTask (answers : Answers) (submission : Submission) (handles : List Handle)
    (thread : ThreadLocal) :
    Relates (Frame.Shows thread) (@Frame.insertTask Key answers submission handles)
      (insertTask answers submission handles) (fun a b f w => a = b ∧ f.Shows thread w)
      (Frame.Shows thread) := by
  rintro f _ ⟨rfl, rfl⟩
  rw [exec_frameInsertTask, exec_insertTask]
  by_cases hinsert : answers.insert = 0
  · simp only [if_pos hinsert]
    exact ⟨trivial, rfl, rfl⟩
  · simp only [if_neg hinsert]
    exact ⟨trivial, rfl, rfl⟩

theorem shows_waitForTask (answers : Answers) (task : IyokanStarpuTask) (thread : ThreadLocal) :
    Relates (Frame.Shows thread) (@Frame.waitForTask Key answers task)
      (waitForTask answers task) (fun _ _ => Frame.Shows thread) (Frame.Shows thread) := by
  rintro f _ ⟨rfl, rfl⟩
  let f' : Frame Key := { f with
    world := f.world.complete task
    callbacks := f.callbacks.complete task }
  have hframe : (Frame.waitForTask answers task).exec f
      = (onWorld (synchronizeOutput answers task)).exec f' := rfl
  have hworld : (waitForTask answers task).exec f.world
      = (synchronizeOutput answers task).exec f'.world := rfl
  rw [hframe, hworld]
  exact (shows_onWorld (synchronizeOutput answers task) f.thread).weaken (fun _ _ h => h)
    (fun _ _ _ _ h => h.2) (fun _ _ h => h) f' f'.world ⟨rfl, rfl⟩

section

variable [DecidableEq Key]

theorem shows_runIyokanStarpu (useCufhepp : Bool) (answers : Answers) (call : GateCall Key)
    (thread : ThreadLocal) :
    Relates (Frame.Shows thread) (Frame.runIyokanStarpu useCufhepp answers call)
      (runIyokanStarpu useCufhepp answers call thread)
      (fun _ thread' => Frame.Shows thread') (Frame.Shows thread) := by
  refine (shows_onWorld (ensureFor useCufhepp answers call.evalKey) thread).bind fun _ _ => ?_
  have hsubmit : Relates (Frame.Shows thread) (Frame.submit answers call.submission)
      (@submit Key answers call.submission) (fun a b f w => a = b ∧ f.Shows thread w)
      (Frame.Shows thread) := by
    refine (shows_onWorld _ thread).bind fun handles handles' => ?_
    rintro f w ⟨rfl, h⟩
    exact shows_insertTask answers call.submission handles thread f w h
  refine Relates.bind (hsubmit.weaken (fun _ _ h => h.2) (fun _ _ _ _ h => h) fun _ _ h => h)
    fun task task' => ?_
  rintro f w ⟨rfl, rfl, hthread⟩
  rw [exec_get_bind, hthread]
  cases hcapture : thread.captureActive with
  | true => exact ⟨rfl, congrArg (captureTask task) hthread⟩
  | false =>
      have hkept : captureTask task thread = thread := by simp [captureTask, hcapture]
      have hwait := (@shows_waitForTask Key answers task thread).bind fun a _ =>
        Relates.pure (a := a) (b := captureTask task thread)
          (Q := fun _ thread' => Frame.Shows thread') (R := Frame.Shows thread)
          fun f w h => hkept.symm ▸ h
      rw [bind_pure] at hwait
      exact hwait f f.world ⟨rfl, hthread⟩

/-- **The sequences are of the calls of `ApiCall.run`.** -/
theorem shows_run (useCufhepp : Bool) (answers : Answers) (call : ApiCall Key)
    (thread : ThreadLocal) :
    Relates (Frame.Shows thread) (Frame.run useCufhepp answers call)
      (call.run useCufhepp answers thread) (fun _ thread' => Frame.Shows thread')
      (Frame.Shows thread) := by
  have hreturn : ∀ {α β : Type} {m : Code (Frame Key) String α} {n : Backend Key β}
      {Q : α → β → Frame Key → World Key → Prop} (a : Option IyokanStarpuTask),
      Relates (Frame.Shows thread) m n Q (Frame.Shows thread) →
      (∀ a b f w, Q a b f w → f.Shows thread w) →
      Relates (Frame.Shows thread) (m >>= fun _ => pure a) (n >>= fun _ => pure thread)
        (fun _ thread' => Frame.Shows thread') (Frame.Shows thread) :=
    fun a h hpost => h.bind fun _ _ => Relates.pure fun _ _ hf => hpost _ _ _ _ hf
  cases call with
  | runIyokanStarpu call =>
      have hpure : (ApiCall.runIyokanStarpu call).run useCufhepp answers thread
          = runIyokanStarpu useCufhepp answers call thread >>= pure := (bind_pure _).symm
      rw [hpure]
      exact (shows_runIyokanStarpu useCufhepp answers call thread).bind fun _ _ =>
        Relates.pure fun _ _ h => h
  | beginIyokanStarpuCapture =>
      rintro f _ ⟨rfl, rfl⟩
      simp only [Frame.run, ApiCall.run, exec_bind, exec_onThread]
      rcases beginIyokanStarpuCapture f.thread with text | thread
      · exact ⟨rfl, rfl, rfl⟩
      · exact ⟨rfl, rfl⟩
  | endIyokanStarpuCapture =>
      rintro f _ ⟨rfl, rfl⟩
      simp only [Frame.run, ApiCall.run, exec_onThread]
      rcases endIyokanStarpuCapture f.thread with text | ⟨token, thread⟩
      · exact ⟨rfl, rfl, rfl⟩
      · exact ⟨rfl, rfl⟩
  | synchronizeIyokanStarpuCapture =>
      rintro f _ ⟨rfl, rfl⟩
      simp only [Frame.run, ApiCall.run, exec_bind, exec_onThread]
      rcases synchronizeIyokanStarpuCapture f.thread with text | ⟨_ | task⟩
      · exact ⟨rfl, rfl, rfl⟩
      · exact ⟨rfl, rfl⟩
      · exact hreturn none (shows_waitForTask answers task f.thread) (fun _ _ _ _ h => h) f f.world
          ⟨rfl, rfl⟩
  | _ => exact hreturn none (shows_onWorld _ thread) fun _ _ _ _ h => h.2

end

/-! ### Two frames -/

/-- StarPU lets the host write an object that the call marks, if it is one of `P`. -/
def ApiCall.Granted (P : Set Place) (answers : Answers) : ApiCall Key → Prop
  | .markIyokanTLWEHostWrite value => (.persistentHandles, value) ∈ P → answers.acquire = 0
  | .markIyokanTRLWEHostWrite value | .markIyokanTRGSWFFTHostWrite value =>
      (.persistentVariableHandles, value) ∈ P → answers.acquire = 0
  | _ => True

namespace Comparison

variable [Inhabited V] {c : Comparison Key V}

variable (c) in
/-- The frames of a call in two processes.  The callback states are numbered differently. -/
def Frames (f₁ f₂ : Frame Key) : Prop := c.Related f₁.world f₂.world ∧ f₂.thread = f₁.thread

theorem onWorld {α β : Type} {m : Backend Key α} {n : Backend Key β}
    {Q : α → β → World Key → World Key → Prop} (h : Relates c.Related m n Q c.Related) :
    Relates c.Frames (onWorld m) (onWorld n)
      (fun a b f₁ f₂ => Q a b f₁.world f₂.world ∧ f₂.thread = f₁.thread) c.Frames :=
  h.zoom (fun _ _ hf => hf.1) (fun _ _ _ _ _ _ hf hQ => ⟨hQ, hf.2⟩)
    fun _ _ _ _ hf hR => ⟨hR, hf.2⟩

theorem onThread {α : Type} (g : ThreadLocal → Except String (α × ThreadLocal)) :
    Relates c.Frames (Iyokan.onThread g) (Iyokan.onThread g)
      (fun a b f₁ f₂ => a = b ∧ c.Frames f₁ f₂) c.Frames := by
  intro f₁ f₂ hf
  rw [exec_onThread, exec_onThread, hf.2]
  rcases g f₁.thread with text | ⟨a, thread⟩
  · exact ⟨rfl, hf⟩
  · exact ⟨rfl, hf.1, rfl⟩

theorem insertTask (answers : Answers) (submission : Submission) (hs₁ hs₂ : List Handle) :
    Relates (fun f₁ f₂ => (c.Related f₁.world f₂.world ∧ Alike.Both f₁.world f₂.world hs₁ hs₂ ∧
        hs₁.length = submission.accesses.length) ∧ f₂.thread = f₁.thread)
      (Frame.insertTask answers submission hs₁) (Frame.insertTask answers submission hs₂)
      (fun a b f₁ f₂ => a = b ∧ c.Frames f₁ f₂) c.Frames := by
  rintro f₁ f₂ ⟨⟨hrelated, hboth, hlength⟩, hthread⟩
  rw [exec_frameInsertTask, exec_frameInsertTask]
  by_cases hinsert : answers.insert = 0
  · simp only [if_pos hinsert]
    obtain ⟨_, _, -, -, halike⟩ := id hrelated
    refine ⟨halike.states.length_eq, ?_, hthread⟩
    rw [hinsert]
    exact hrelated.insert hboth hlength
  · simp only [if_neg hinsert]
    obtain ⟨_, _, -, -, halike⟩ := id hrelated
    exact ⟨trivial, hrelated.quietly (quietly_refuse f₁.world submission hs₁ hinsert)
      (quietly_refuse f₂.world submission hs₂ hinsert) halike.currentEvalKey
      halike.starpuInitOnce halike.starpuInitStatus halike.starpuRunning, hthread⟩

theorem submit (answers : Answers) (submission : Submission) :
    Relates c.Frames (Frame.submit answers submission) (Frame.submit answers submission)
      (fun a b f₁ f₂ => a = b ∧ c.Frames f₁ f₂) c.Frames :=
  (onWorld (handles submission.accesses)).bind fun hs₁ hs₂ =>
    insertTask answers submission hs₁ hs₂

theorem frameWaitForTask (answers : Answers) (task : IyokanStarpuTask) :
    Relates c.Frames (Frame.waitForTask answers task) (Frame.waitForTask answers task)
      (fun _ _ => c.Frames) c.Frames := by
  refine (onWorld (taskCompleted task)).bind fun _ _ => ?_
  refine Relates.bind (m := modify _) (n := modify _) (Q := fun _ _ => c.Frames)
    (fun _ _ hf => hf) fun _ _ => ?_
  exact onWorld (synchronizeOutput answers task)

variable [DecidableEq Key]

theorem runIyokanStarpu (useCufhepp : Bool) (answers : Answers) (call : GateCall Key) :
    Relates c.Frames (Frame.runIyokanStarpu useCufhepp answers call)
      (Frame.runIyokanStarpu useCufhepp answers call) (fun _ _ => c.Frames) c.Frames := by
  refine (onWorld (ensureFor useCufhepp answers call.evalKey)).bind fun _ _ => ?_
  refine (submit answers call.submission).bind fun task task₂ => ?_
  rintro f₁ f₂ ⟨rfl, hf⟩
  rw [exec_get_bind, exec_get_bind, hf.2]
  cases f₁.thread.captureActive with
  | true => exact ⟨hf.1, congrArg (captureTask task) hf.2⟩
  | false => exact frameWaitForTask answers task f₁ f₂ hf

/-- **A call does not tell the processes apart.** -/
theorem run (useCufhepp : Bool) (answers : Answers) {call : ApiCall Key}
    (hgranted : call.Granted c.P answers) :
    Relates c.Frames (Frame.run useCufhepp answers call) (Frame.run useCufhepp answers call)
      (fun a b f₁ f₂ => a = b ∧ c.Frames f₁ f₂) c.Frames := by
  have hreturn : ∀ {α : Type} {m n : Code (Frame Key) String α} (a : Option IyokanStarpuTask),
      Relates c.Frames m n (fun _ _ => c.Frames) c.Frames →
      Relates c.Frames (m >>= fun _ => pure a) (n >>= fun _ => pure a)
        (fun a b f₁ f₂ => a = b ∧ c.Frames f₁ f₂) c.Frames :=
    fun a h => h.bind fun _ _ => Relates.pure fun _ _ hf => ⟨rfl, hf⟩
  cases call with
  | configureIyokanStarpu cpuWorkers cudaDevices =>
      exact hreturn none (onWorld (configureIyokanStarpu cpuWorkers cudaDevices))
  | prepareIyokanStarpu evalKey =>
      exact hreturn none (onWorld (ensureFor useCufhepp answers (some evalKey)))
  | runIyokanStarpu call => exact hreturn none (runIyokanStarpu useCufhepp answers call)
  | synchronizeOutput task => exact hreturn none (onWorld (synchronizeOutput answers task))
  | beginIyokanStarpuCapture =>
      refine (onThread _).bind fun _ _ => Relates.pure fun _ _ hf => ⟨rfl, hf.2⟩
  | endIyokanStarpuCapture => exact onThread _
  | synchronizeIyokanStarpuCapture =>
      refine (onThread _).bind fun captured captured₂ => ?_
      rintro f₁ f₂ ⟨rfl, hf⟩
      cases captured with
      | none => exact ⟨rfl, hf⟩
      | some task => exact hreturn none (frameWaitForTask answers task) f₁ f₂ hf
  | markIyokanTLWEHostWrite value =>
      exact hreturn none (onWorld (acquireForWrite answers _ hgranted))
  | markIyokanTRLWEHostWrite value | markIyokanTRGSWFFTHostWrite value =>
      exact hreturn none (onWorld (acquireForWrite answers _ hgranted))
  | shutdownIyokanStarpu => exact hreturn none (onWorld (shutdownIyokanStarpu useCufhepp))

end Comparison

/-! ### Sequences of calls -/

theorem Alike.hostWrite {P : Set Place} {w₁ w₂ : World Key} {σ₁ σ₂ : Store V}
    (h : Alike P w₁ w₂ σ₁ σ₂) (address : Address) (v : V) : Alike P w₁ w₂
      { σ₁ with memory := Function.update σ₁.memory address v }
      { σ₂ with memory := Function.update σ₂.memory address v } :=
  ⟨h.currentEvalKey, h.starpuInitOnce, h.starpuInitStatus, h.starpuRunning,
    congrArg (Function.update · address v) h.memory, ⟨h.knows₁.buffer, h.knows₁.fresh⟩,
    ⟨h.knows₂.buffer, h.knows₂.fresh⟩, h.registered, h.copies, h.states⟩

/-- StarPU refuses no acquisition of an object of `P` by a `mark` function. -/
def Event.Granted (P : Set Place) : Event Tid Key V → Prop
  | .call _ made answers _ => made.Granted P answers
  | .hostWrite _ _ => True

namespace Session

/-- The processes differ in which objects of `P` are registered, and in what cannot be
seen: the handles and the callback states. -/
structure Indistinct (P : Set Place) (s₁ s₂ : Session Tid Key V) : Prop where
  alike : Alike P s₁.world s₂.world s₁.store s₂.store
  threads : s₂.threads = s₁.threads

theorem find_start (memory : Address → V) (place : Place) :
    (start memory : Session Tid Key V).world.find place = none := by
  rcases place with ⟨_ | _, address⟩ <;> rfl

theorem indistinct_start (memory : Address → V) :
    Indistinct ∅ (start memory : Session Tid Key V) (start memory) := by
  have hknows : (start memory : Session Tid Key V).store.Knows
      (start memory : Session Tid Key V).world := by
    refine ⟨fun place handle hfind => ?_, fun _ _ => rfl⟩
    rw [find_start] at hfind
    exact absurd hfind (by simp)
  refine ⟨⟨rfl, rfl, rfl, rfl, rfl, hknows, hknows, fun _ _ => Iff.rfl, fun place => ?_, .nil⟩, rfl⟩
  rw [find_start]
  trivial

theorem granted_empty (event : Event Tid Key V) : event.Granted ∅ := by
  cases event with
  | call t call answers onDevice => cases call <;> simp [Event.Granted, ApiCall.Granted]
  | hostWrite address v => trivial

variable [DecidableEq Tid] [DecidableEq Key] [Inhabited V] {tfhe : TFHE Key V}
  {useCufhepp : Bool} {P : Set Place} {s₁ s₂ : Session Tid Key V}

theorem Indistinct.perform (h : Indistinct P s₁ s₂) (t : Tid) {call : ApiCall Key}
    {answers : Answers} (onDevice : Bool) (hgranted : call.Granted P answers) :
    (s₂.perform tfhe useCufhepp t call answers onDevice).1
        = (s₁.perform tfhe useCufhepp t call answers onDevice).1 ∧
      Indistinct P (s₁.perform tfhe useCufhepp t call answers onDevice).2
        (s₂.perform tfhe useCufhepp t call answers onDevice).2 := by
  -- the codelets of the call find the key that is bound when it is left
  let c (evalKey : Option Key) : Comparison Key V :=
    ⟨tfhe, onDevice, evalKey, (s₁.world.calls, s₁.store), (s₂.world.calls, s₂.store), P⟩
  have hbefore : ∀ evalKey, (c evalKey).Frames (s₁.frame t) (s₂.frame t) := fun evalKey =>
    ⟨⟨s₁.store, s₂.store, ⟨[], by simp [c, frame], rfl⟩, ⟨[], by simp [c, frame], rfl⟩, h.alike⟩,
      congrFun h.threads t⟩
  have hleft : ∀ f₁ f₂ : Frame Key, (c f₁.world.currentEvalKey).Frames f₁ f₂ →
      Indistinct P (s₁.left tfhe t onDevice f₁) (s₂.left tfhe t onDevice f₂) := by
    rintro f₁ f₂ ⟨⟨σ₁, σ₂, ⟨later₁, hlater₁, rfl⟩, ⟨later₂, hlater₂, rfl⟩, halike⟩, hthread⟩
    refine ⟨?_, ?_⟩
    · simp only [left, hlater₁, hlater₂, c, List.drop_left, halike.currentEvalKey]
      exact halike
    · simp only [left, h.threads, hthread]
  have hrun : ∀ evalKey, _ := fun evalKey =>
    Comparison.run (c := c evalKey) useCufhepp answers hgranted _ _ (hbefore evalKey)
  simp only [Session.perform]
  rcases hexec₁ : (Frame.run useCufhepp answers call).exec (s₁.frame t) with ⟨e₁ | a₁, f₁⟩ <;>
    rcases hexec₂ : (Frame.run useCufhepp answers call).exec (s₂.frame t) with ⟨e₂ | a₂, f₂⟩ <;>
      simp only [hexec₁, hexec₂] at hrun
  · obtain ⟨rfl, hframes⟩ := hrun f₁.world.currentEvalKey
    exact ⟨rfl, hleft f₁ f₂ hframes⟩
  · exact (hrun none).elim
  · exact (hrun none).elim
  · obtain ⟨rfl, hframes⟩ := hrun f₁.world.currentEvalKey
    exact ⟨rfl, hleft f₁ f₂ hframes⟩

theorem Indistinct.step (h : Indistinct P s₁ s₂) {event : Event Tid Key V}
    (hgranted : event.Granted P) :
    (s₂.step tfhe useCufhepp event).1 = (s₁.step tfhe useCufhepp event).1 ∧
      Indistinct P (s₁.step tfhe useCufhepp event).2 (s₂.step tfhe useCufhepp event).2 := by
  cases event with
  | call t call answers onDevice => exact h.perform t onDevice hgranted
  | hostWrite address v => exact ⟨rfl, h.alike.hostWrite address v, h.threads⟩

theorem run_cons (tfhe : TFHE Key V) (useCufhepp : Bool) (s : Session Tid Key V)
    (event : Event Tid Key V) (rest : List (Event Tid Key V)) :
    s.run tfhe useCufhepp (event :: rest) =
      let s' := (s.step tfhe useCufhepp event).2
      (⟨(s.step tfhe useCufhepp event).1, s'.store.memory⟩ :: (s'.run tfhe useCufhepp rest).1,
        (s'.run tfhe useCufhepp rest).2) := rfl

/-- What is seen of two processes that differ in what is registered is the same. -/
theorem Indistinct.run (h : Indistinct P s₁ s₂) {events : List (Event Tid Key V)}
    (hgranted : ∀ event ∈ events, event.Granted P) :
    (s₂.run tfhe useCufhepp events).1 = (s₁.run tfhe useCufhepp events).1 ∧
      Indistinct P (s₁.run tfhe useCufhepp events).2 (s₂.run tfhe useCufhepp events).2 := by
  induction events generalizing s₁ s₂ with
  | nil => exact ⟨rfl, h⟩
  | cons event rest ih =>
      obtain ⟨hresult, hstep⟩ : (s₂.step tfhe useCufhepp event).1
          = (s₁.step tfhe useCufhepp event).1 ∧
          Indistinct P (s₁.step tfhe useCufhepp event).2 (s₂.step tfhe useCufhepp event).2 :=
        h.step (hgranted event List.mem_cons_self)
      obtain ⟨hseen, hrest⟩ := ih hstep fun e he => hgranted e (List.mem_cons_of_mem _ he)
      simp only [run_cons, hresult, hseen, hstep.alike.memory]
      exact ⟨trivial, hrest⟩

/-- In every state that is reached, handles lead to the objects they were registered for. -/
theorem indistinct_self (memory : Address → V) (events : List (Event Tid Key V)) :
    Indistinct ∅ ((start memory : Session Tid Key V).run tfhe useCufhepp events).2
      ((start memory).run tfhe useCufhepp events).2 :=
  ((indistinct_start memory).run fun event _ => granted_empty event).2

end Session

/-! ### Callback states are deleted once -/

/-- No state is deleted twice, and those whose callback is to run have not been deleted. -/
structure Callbacks.Sound (c : Callbacks) : Prop where
  once : c.deleted.Nodup
  allocated : ∀ callbackState ∈ c.deleted, callbackState < c.allocated
  attached : ∀ entry ∈ c.attached, entry.2 < c.allocated ∧ entry.2 ∉ c.deleted
  distinct : (c.attached.map Prod.snd).Nodup

/-- The states stay sound, and none is taken back. -/
def Callbacks.Goes (c c' : Callbacks) : Prop :=
  c.Sound → c'.Sound ∧ c.deleted ⊆ c'.deleted

namespace Callbacks

theorem goes_refl (c : Callbacks) : c.Goes c := fun h => ⟨h, List.Subset.refl _⟩

theorem Goes.trans {c c' c'' : Callbacks} (h : c.Goes c') (h' : c'.Goes c'') : c.Goes c'' := by
  intro hc
  obtain ⟨hsound, hsub⟩ := h hc
  obtain ⟨hsound', hsub'⟩ := h' hsound
  exact ⟨hsound', List.Subset.trans hsub hsub'⟩

/-- A state that is allocated now is none of the others. -/
theorem Sound.fresh {c : Callbacks} (h : c.Sound) : c.allocated ∉ c.deleted :=
  fun hmem => Nat.lt_irrefl _ (h.allocated _ hmem)

theorem goes_attach (c : Callbacks) (task : IyokanStarpuTask) :
    c.Goes (c.new.attach task c.allocated) := by
  intro h
  refine ⟨⟨h.once, fun x hx => Nat.lt_succ_of_lt (h.allocated x hx), ?_, ?_⟩, List.Subset.refl _⟩
  · intro entry hentry
    rcases List.mem_cons.mp hentry with rfl | hentry
    · exact ⟨Nat.lt_succ_self _, h.fresh⟩
    · exact ⟨Nat.lt_succ_of_lt (h.attached entry hentry).1, (h.attached entry hentry).2⟩
  · refine List.nodup_cons.mpr ⟨?_, h.distinct⟩
    intro hmem
    obtain ⟨entry, hentry, heq⟩ := List.mem_map.mp hmem
    exact Nat.lt_irrefl _ (heq ▸ (h.attached entry hentry).1)

theorem sound_delete {c : Callbacks} (h : c.Sound) {callbackState : Nat}
    (hlt : callbackState < c.allocated) (hnew : callbackState ∉ c.deleted)
    (hfree : ∀ entry ∈ c.attached, entry.2 ≠ callbackState) : (c.delete callbackState).Sound where
  once := by
    refine List.nodup_append.mpr ⟨h.once, List.nodup_singleton _, fun x hx y hy => ?_⟩
    rintro rfl
    rw [List.mem_singleton.mp hy] at hx
    exact hnew hx
  allocated := fun x hx => by
    rcases List.mem_append.mp hx with hx | hx
    · exact h.allocated x hx
    · exact (List.mem_singleton.mp hx) ▸ hlt
  attached := fun entry hentry => by
    refine ⟨(h.attached entry hentry).1, fun hmem => ?_⟩
    rcases List.mem_append.mp hmem with hmem | hmem
    · exact (h.attached entry hentry).2 hmem
    · exact hfree entry hentry (List.mem_singleton.mp hmem)
  distinct := h.distinct

theorem sound_new {c : Callbacks} (h : c.Sound) : c.new.Sound where
  once := h.once
  allocated := fun x hx => Nat.lt_succ_of_lt (h.allocated x hx)
  attached := fun entry hentry =>
    ⟨Nat.lt_succ_of_lt (h.attached entry hentry).1, (h.attached entry hentry).2⟩
  distinct := h.distinct

/-- `new` and, after a failure, `delete` of the same state. -/
theorem goes_refused (c : Callbacks) : c.Goes (c.new.delete c.allocated) := by
  intro h
  refine ⟨sound_delete (sound_new h) (Nat.lt_succ_self _) h.fresh ?_,
    List.subset_append_left _ _⟩
  intro entry hentry heq
  exact Nat.lt_irrefl _ (heq ▸ (h.attached entry hentry).1)

theorem goes_complete (c : Callbacks) (task : IyokanStarpuTask) : c.Goes (c.complete task) := by
  unfold complete
  cases hlookup : c.attached.lookup task with
  | none => exact goes_refl c
  | some callbackState =>
      intro h
      obtain ⟨l, l', hattached, -⟩ := List.lookup_eq_some_iff.mp hlookup
      have hmem : (task, callbackState) ∈ c.attached := by simp [hattached]
      have hrest : (Callbacks.mk c.allocated (c.attached.filter fun entry => entry.1 ≠ task)
          c.deleted).Sound :=
        ⟨h.once, h.allocated, fun entry hentry => h.attached entry (List.mem_filter.mp hentry).1,
          h.distinct.sublist (List.filter_sublist.map _)⟩
      obtain ⟨hlt, hnew⟩ := h.attached _ hmem
      refine ⟨sound_delete hrest hlt hnew ?_, List.subset_append_left _ _⟩
      intro entry hentry heq
      obtain ⟨hentry, hne⟩ := List.mem_filter.mp hentry
      have hsame : entry = (task, callbackState) :=
        List.inj_on_of_nodup_map h.distinct hentry hmem heq
      exact absurd hne (by simp [hsame])

end Callbacks

/-- What a call does to the callback states. -/
def Frame.Goes (f f' : Frame Key) : Prop := f.callbacks.Goes f'.callbacks

instance : Std.Refl (@Frame.Goes Key) := ⟨fun f => Callbacks.goes_refl f.callbacks⟩

instance : IsTrans (Frame Key) Frame.Goes := ⟨fun _ _ _ h h' => Callbacks.Goes.trans h h'⟩

theorem goes_onWorld {α : Type} (m : Backend Key α) : Moves Frame.Goes (onWorld m) :=
  fun f => Callbacks.goes_refl f.callbacks

theorem goes_onThread {α : Type} (g : ThreadLocal → Except String (α × ThreadLocal)) :
    Moves Frame.Goes (@onThread Key α g) := by
  intro f
  rw [exec_onThread]
  rcases g f.thread with text | ⟨a, thread⟩ <;> exact Callbacks.goes_refl f.callbacks

theorem goes_insertTask (answers : Answers) (submission : Submission) (handles : List Handle) :
    Moves Frame.Goes (@Frame.insertTask Key answers submission handles) := by
  intro f
  rw [exec_frameInsertTask]
  by_cases hinsert : answers.insert = 0
  · simp only [if_pos hinsert]
    exact Callbacks.goes_attach f.callbacks f.world.states.length
  · simp only [if_neg hinsert]
    exact Callbacks.goes_refused f.callbacks

theorem goes_waitForTask (answers : Answers) (task : IyokanStarpuTask) :
    Moves Frame.Goes (@Frame.waitForTask Key answers task) := by
  refine (goes_onWorld _).bind fun _ => ?_
  exact Moves.bind (Moves.modify fun f => Callbacks.goes_complete f.callbacks task)
    fun _ => goes_onWorld _

section

variable [DecidableEq Key]

theorem goes_runIyokanStarpu (useCufhepp : Bool) (answers : Answers) (call : GateCall Key) :
    Moves Frame.Goes (Frame.runIyokanStarpu useCufhepp answers call) := by
  refine (goes_onWorld _).bind fun _ => ?_
  refine Moves.bind ((goes_onWorld _).bind fun handles => goes_insertTask answers _ handles)
    fun task => Moves.get.bind fun f => ?_
  exact Moves.ite (Moves.modify fun f => Callbacks.goes_refl f.callbacks)
    (goes_waitForTask answers task)

theorem goes_run (useCufhepp : Bool) (answers : Answers) (call : ApiCall Key) :
    Moves Frame.Goes (Frame.run useCufhepp answers call) := by
  cases call with
  | runIyokanStarpu call =>
      exact (goes_runIyokanStarpu useCufhepp answers call).bind fun _ => Moves.pure _
  | beginIyokanStarpuCapture => exact (goes_onThread _).bind fun _ => Moves.pure _
  | endIyokanStarpuCapture => exact goes_onThread _
  | synchronizeIyokanStarpuCapture =>
      refine (goes_onThread _).bind fun captured => ?_
      cases captured with
      | none => exact Moves.pure _
      | some task => exact (goes_waitForTask answers task).bind fun _ => Moves.pure _
  | _ => exact (goes_onWorld _).bind fun _ => Moves.pure _

end

namespace Session

variable [DecidableEq Tid] [DecidableEq Key] [Inhabited V] {tfhe : TFHE Key V}
  {useCufhepp : Bool}

theorem goes_step (s : Session Tid Key V) (event : Event Tid Key V) :
    s.callbacks.Goes (s.step tfhe useCufhepp event).2.callbacks := by
  cases event with
  | call t call answers onDevice => exact goes_run useCufhepp answers call (s.frame t)
  | hostWrite address v => exact Callbacks.goes_refl s.callbacks

theorem goes_events (s : Session Tid Key V) (events : List (Event Tid Key V)) :
    s.callbacks.Goes (s.run tfhe useCufhepp events).2.callbacks := by
  induction events generalizing s with
  | nil => exact Callbacks.goes_refl s.callbacks
  | cons event rest ih => exact (goes_step s event).trans (ih _)

/-- In every state that is reached, the callback states are sound. -/
theorem sound_run (memory : Address → V) (events : List (Event Tid Key V)) :
    ((start memory : Session Tid Key V).run tfhe useCufhepp events).2.callbacks.Sound :=
  (goes_events (start memory) events ⟨.nil, by simp [start], by simp [start], .nil⟩).1

end Session

/-! ### The failed call -/

theorem quietly_ensureStarpuRuntime (answers : Answers) :
    Moves World.Quietly (@ensureStarpuRuntime Key answers) := by
  intro w
  rw [exec_ensureStarpuRuntime]
  show w.Quietly (if w.starpuInitOnce then w else w.afterInit answers)
  split_ifs
  · exact quietly_refl w
  · exact quietly_afterInit w answers

theorem quietly_bindEvalKey [DecidableEq Key] (useCufhepp : Bool) (answers : Answers)
    (evalKey : Key) :
    Moves World.Quietly (bindEvalKey useCufhepp answers evalKey) := by
  intro w
  by_cases haccepts : w.Accepts evalKey
  · rw [exec_bindEvalKey_accepted useCufhepp answers haccepts]
    exact quietly_bind w useCufhepp answers evalKey
  · rw [exec_bindEvalKey_rejected useCufhepp answers haccepts]
    exact quietly_refl w

/-- Starting StarPU and binding a key moves no data. -/
theorem quietly_ensureFor [DecidableEq Key] (useCufhepp : Bool) (answers : Answers)
    (key : Option Key) :
    Moves World.Quietly (ensureFor useCufhepp answers key) := by
  cases key with
  | none => exact quietly_ensureStarpuRuntime answers
  | some evalKey =>
      exact (quietly_ensureStarpuRuntime answers).bind fun _ =>
        quietly_bindEvalKey useCufhepp answers evalKey

namespace Comparison

variable [Inhabited V] {c : Comparison Key V} {w₀ : World Key}

/-- Only the first process finds or registers an operand. -/
theorem handleFor_one {access : Access} (hP : w₀.find access.place = none → access.place ∈ c.P) :
    Ensures (c.Related · w₀) (Iyokan.handleFor access) (fun _ => (c.Related · w₀))
      fun _ => False := by
  rintro w ⟨σ₁, σ₂, hsince₁, hsince₂, halike⟩
  rw [exec_handleFor]
  cases hfind : w.find access.place with
  | some handle => exact ⟨σ₁, σ₂, hsince₁, hsince₂, halike⟩
  | none =>
      have hmem : access.place ∈ c.P := by
        by_contra hnot
        exact hnot (hP ((halike.registered _ hnot).mp hfind))
      exact ⟨_, σ₂, hsince₁.register access, hsince₂, halike.register hfind hmem⟩

theorem handles_one {accesses : List Access}
    (hP : ∀ access ∈ accesses, w₀.find access.place = none → access.place ∈ c.P) :
    Ensures (c.Related · w₀) (accesses.mapM Iyokan.handleFor) (fun _ => (c.Related · w₀))
      fun _ => False := by
  refine Ensures.mapM (fun _ _ => (c.Related · w₀)) fun pre handles access post hsplit => ?_
  exact handleFor_one (hP access (by simp [hsplit]))

end Comparison

namespace Session

variable [DecidableEq Tid] [DecidableEq Key] [Inhabited V] {tfhe : TFHE Key V}
  {useCufhepp : Bool} {s : Session Tid Key V}

/-- StarPU has been started and the key bound, and nothing else has been done. -/
def prepared (s : Session Tid Key V) (useCufhepp : Bool) (answers : Answers)
    (evalKey : Option Key) : Session Tid Key V :=
  { s with world := ((ensureFor useCufhepp answers evalKey).exec s.world).2 }

omit [DecidableEq Key] in
/-- A call that moves no data leaves the store. -/
theorem left_quietly {f : Frame Key} (h : s.world.Quietly f.world) (t : Tid) (onDevice : Bool) :
    (s.left tfhe t onDevice f).store = s.store := by
  obtain ⟨calls, hcalls, hquiet⟩ := h.calls
  simp only [left, hcalls, List.drop_left]
  exact Comparison.foldl_quiet hquiet s.store

/-- Where the call has a key, that is what `prepareIyokanStarpu` does. -/
theorem perform_prepare (s : Session Tid Key V) (t : Tid) (evalKey : Key) (answers : Answers)
    (onDevice : Bool) :
    (s.perform tfhe useCufhepp t (.prepareIyokanStarpu evalKey) answers onDevice).2
      = s.prepared useCufhepp answers (some evalKey) := by
  let m : Code (Frame Key) String PUnit := onWorld (ensureStarpu useCufhepp answers evalKey)
  have hstate : ((Frame.run useCufhepp answers (.prepareIyokanStarpu evalKey)).exec (s.frame t)).2
      = (m.exec (s.frame t)).2 := state_bind_pure m (fun _ => none) (s.frame t)
  have hquiet : s.world.Quietly (m.exec (s.frame t)).2.world :=
    quietly_ensureFor useCufhepp answers (some evalKey) s.world
  simp only [perform, hstate]
  show Session.mk _ _ (Function.update s.threads t (s.threads t)) _ = _
  rw [Function.update_eq_self]
  exact congrArg (Session.mk _ _ _) (left_quietly hquiet t onDevice)

/-- The objects that the call registers. -/
def newPlaces (s : Session Tid Key V) (call : GateCall Key) : Set Place :=
  {place | place ∈ call.places ∧ s.world.find place = none}

/-- The code of a gate call up to the submission that StarPU refuses. -/
theorem exec_refused (f : Frame Key) {call : GateCall Key} {answers : Answers}
    {w w' : World Key} {handles : List Handle} (hinsert : answers.insert ≠ 0)
    (hensure : (ensureFor useCufhepp answers call.evalKey).exec f.world = (.ok ⟨⟩, w))
    (hhandles : (call.submission.accesses.mapM handleFor).exec w = (.ok handles, w')) :
    (Frame.run useCufhepp answers (.runIyokanStarpu call)).exec f
      = (.error call.submission.failure, { f with
          world := w'.call (call.submission.insertCall handles answers.insert)
          callbacks := f.callbacks.new.delete f.callbacks.allocated }) := by
  have hensured : (onWorld (ensureFor useCufhepp answers call.evalKey)).exec f
      = (.ok ⟨⟩, { f with world := w }) := by
    rw [onWorld, exec_zoom, hensure]
  have hfound : (onWorld (call.submission.accesses.mapM handleFor)).exec { f with world := w }
      = (.ok handles, { f with world := w' }) := by
    rw [onWorld, exec_zoom, hhandles]
  refine exec_bind_error ((exec_bind_ok hensured).trans (exec_bind_error ?_))
  rw [Frame.submit, exec_bind_ok hfound, exec_frameInsertTask]
  simp only [if_neg hinsert]

variable (tfhe) in
omit [DecidableEq Tid] [DecidableEq Key] in
/-- The operands are found or registered, which only adds to the registries. -/
theorem handles_prepared (hs : Indistinct ∅ s s) (call : GateCall Key) (onDevice : Bool)
    {w : World Key} (hquiet : s.world.Quietly w) :
    ∃ handles w' later, (call.submission.accesses.mapM handleFor).exec w = (.ok handles, w') ∧
      w'.calls = s.world.calls ++ later ∧
      Alike (s.newPlaces call) w' w
        (later.foldl (Store.after tfhe onDevice w.currentEvalKey) s.store) s.store := by
  let c : Comparison Key V := ⟨tfhe, onDevice, w.currentEvalKey, (s.world.calls, s.store),
    (w.calls, s.store), s.newPlaces call⟩
  have hself : Alike ∅ w w s.store s.store :=
    hs.alike.frame hquiet.find hquiet.find hquiet.nextHandle hquiet.nextHandle hquiet.states
      hquiet.states rfl rfl rfl rfl
  have hprepared : c.Related w w :=
    ⟨s.store, s.store, Comparison.Since.quietly ⟨[], by simp [c], rfl⟩ hquiet,
      ⟨[], by simp [c], rfl⟩, hself.grow (Set.empty_subset _)⟩
  have hhandles : Ensures (c.Related · w) (call.submission.accesses.mapM handleFor)
      (fun _ => (c.Related · w)) fun _ => False :=
    Comparison.handles_one fun access haccess hfree =>
      ⟨List.mem_map_of_mem haccess, hquiet.find ▸ hfree⟩
  have hloop := hhandles w hprepared
  rcases hexec : (call.submission.accesses.mapM handleFor).exec w with ⟨text | handles, w'⟩
  · rw [hexec] at hloop
    exact hloop.elim
  · rw [hexec] at hloop
    obtain ⟨_, _, ⟨later, hlater, rfl⟩, ⟨later₂, hlater₂, rfl⟩, halike⟩ := hloop
    have hnone : later₂ = [] := List.append_right_eq_self.mp hlater₂.symm
    subst hnone
    exact ⟨handles, w', later, rfl, hlater, halike⟩

variable (tfhe) in
/-- A refused submission leaves what preparing StarPU leaves, and new registrations. -/
theorem perform_refused (hs : Indistinct ∅ s s) (t : Tid) {call : GateCall Key}
    {answers : Answers} (onDevice : Bool) {w : World Key} (hinsert : answers.insert ≠ 0)
    (hensure : (ensureFor useCufhepp answers call.evalKey).exec s.world = (.ok ⟨⟩, w)) :
    ∃ s', s.perform tfhe useCufhepp t (.runIyokanStarpu call) answers onDevice
        = (.error call.submission.failure, s') ∧ s'.threads = s.threads ∧
      s'.callbacks = s.callbacks.new.delete s.callbacks.allocated ∧
      Indistinct (s.newPlaces call) s' (s.prepared useCufhepp answers call.evalKey) := by
  have hquiet : s.world.Quietly w := by
    have := quietly_ensureFor useCufhepp answers call.evalKey s.world
    rwa [hensure] at this
  obtain ⟨handles, w', later, hhandles, hlater, halike⟩ :=
    handles_prepared tfhe hs call onDevice hquiet
  let insertCall : LibraryCall Key := call.submission.insertCall handles answers.insert
  let f : Frame Key :=
    ⟨w'.call insertCall, s.callbacks.new.delete s.callbacks.allocated, s.threads t⟩
  have hrun : (Frame.run useCufhepp answers (.runIyokanStarpu call)).exec (s.frame t)
      = (.error call.submission.failure, f) := exec_refused (s.frame t) hinsert hensure hhandles
  have hstore : (s.left tfhe t onDevice f).store
      = later.foldl (Store.after tfhe onDevice w.currentEvalKey) s.store := by
    have hcalls : f.world.calls.drop s.world.calls.length = later ++ [insertCall] := by
      show (w'.calls ++ [insertCall]).drop _ = _
      rw [hlater, List.append_assoc, List.drop_left]
    have hkey : f.world.currentEvalKey = w.currentEvalKey := halike.currentEvalKey.symm
    have hrefused : insertCall.Quiet := hinsert
    simp only [left, hcalls, hkey, List.foldl_append, List.foldl_cons, List.foldl_nil,
      Comparison.after_quiet hrefused]
  have hthreads : (s.left tfhe t onDevice f).threads = s.threads :=
    Function.update_eq_self t s.threads
  have hworld : (s.prepared useCufhepp answers call.evalKey).world = w := by
    rw [prepared, hensure]
  refine ⟨s.left tfhe t onDevice f, ?_, hthreads, rfl, ?_, hthreads.symm⟩
  · simp only [perform, hrun]
  · rw [hstore, hworld]
    exact halike.call insertCall

omit [DecidableEq Tid] [Inhabited V] in
/-- Where StarPU had been started and the key was bound, preparing changes nothing that can
be seen. -/
theorem indistinct_prepared (hs : Indistinct ∅ s s) {answers : Answers} {key : Option Key}
    (honce : s.world.starpuInitOnce = true) (hkey : key = none ∨ key = s.world.currentEvalKey) :
    Indistinct ∅ (s.prepared useCufhepp answers key) s := by
  have hkept : ∀ w, s.world.Quietly w → w.currentEvalKey = s.world.currentEvalKey →
      w.starpuInitOnce = s.world.starpuInitOnce → w.starpuInitStatus = s.world.starpuInitStatus →
      w.starpuRunning = s.world.starpuRunning → Indistinct ∅ { s with world := w } s :=
    fun w hquiet hevalKey honce hstatus hrunning => ⟨hs.alike.frame hquiet.find rfl
      hquiet.nextHandle rfl hquiet.states rfl hevalKey.symm honce.symm hstatus.symm hrunning.symm,
      rfl⟩
  have hsame := hkept s.world (quietly_refl s.world) rfl rfl rfl rfl
  have hruntime : ((ensureStarpuRuntime answers).exec s.world).2 = s.world := by
    rw [exec_ensureStarpuRuntime, honce]
    rfl
  cases key with
  | none =>
      rw [prepared, ensureFor, hruntime]
      exact hsame
  | some evalKey =>
      have hbound : s.world.currentEvalKey = some evalKey :=
        (hkey.resolve_left (by simp)).symm
      rw [prepared, ensureFor, ensureStarpu, exec_bind]
      rcases hexec : (ensureStarpuRuntime answers).exec s.world with ⟨text | _, w⟩
      · rw [hexec] at hruntime
        rw [hruntime]
        exact hsame
      · obtain rfl : w = s.world := by
          rw [hexec] at hruntime
          exact hruntime
        show Indistinct ∅
          { s with world := ((bindEvalKey useCufhepp answers evalKey).exec s.world).2 } s
        rw [exec_bindEvalKey_accepted useCufhepp answers (Or.inr hbound)]
        obtain ⟨hevalKey, honce', hstatus, hrunning⟩ :=
          bind_frame s.world useCufhepp answers evalKey
        exact hkept _ (quietly_bind s.world useCufhepp answers evalKey)
          (hevalKey.trans hbound.symm) honce' hstatus hrunning

end Session

/-- **A failed submission leaves StarPU prepared, and nothing else that can be seen.**  The
call throws, and the capture of its thread stays as it was.  Its callback state is deleted,
once.  Whatever is called later returns and throws what it would after StarPU had been
started and the key of the call bound, as `prepareIyokanStarpu` does, while StarPU lets a
`mark` function write the operands that had not been registered before.  If StarPU had been
started before and the call had no key or the bound one, that is what would happen without
the call. -/
theorem failed_submission [DecidableEq Tid] [DecidableEq Key] [Inhabited V] (tfhe : TFHE Key V)
    (useCufhepp : Bool) (memory : Address → V) (past : List (Event Tid Key V)) (t : Tid)
    (call : GateCall Key) (answers : Answers) (onDevice : Bool) {w : World Key}
    (hinsert : answers.insert ≠ 0)
    (hensure : (ensureFor useCufhepp answers call.evalKey).exec
      ((Session.start memory : Session Tid Key V).run tfhe useCufhepp past).2.world = (.ok ⟨⟩, w)) :
    let s := ((Session.start memory : Session Tid Key V).run tfhe useCufhepp past).2
    let prepared := s.prepared useCufhepp answers call.evalKey
    ∃ failed, s.step tfhe useCufhepp (.call t (.runIyokanStarpu call) answers onDevice)
        = (.error call.submission.failure, failed) ∧
      failed.threads = s.threads ∧
      failed.callbacks = s.callbacks.new.delete s.callbacks.allocated ∧
      (∀ evalKey, call.evalKey = some evalKey → prepared = (s.step tfhe useCufhepp
        (.call t (.prepareIyokanStarpu evalKey) answers onDevice)).2) ∧
      ∀ later : List (Event Tid Key V),
        (failed.run tfhe useCufhepp later).2.callbacks.deleted.count s.callbacks.allocated = 1 ∧
        ((∀ event ∈ later, event.Granted (s.newPlaces call)) →
          (failed.run tfhe useCufhepp later).1 = (prepared.run tfhe useCufhepp later).1 ∧
          (s.world.starpuInitOnce = true →
            (call.evalKey = none ∨ call.evalKey = s.world.currentEvalKey) →
            (failed.run tfhe useCufhepp later).1 = (s.run tfhe useCufhepp later).1)) := by
  intro s prepared
  have hs : s.Indistinct ∅ s := Session.indistinct_self memory past
  obtain ⟨failed, hfailed, hthreads, hcallbacks, hindistinct⟩ :=
    Session.perform_refused tfhe hs t onDevice hinsert hensure
  refine ⟨failed, hfailed, hthreads, hcallbacks, fun evalKey hkey => ?_,
    fun later => ⟨?_, fun hgranted => ?_⟩⟩
  · show s.prepared useCufhepp answers call.evalKey = _
    rw [hkey]
    exact (Session.perform_prepare s t evalKey answers onDevice).symm
  · have hbefore : s.callbacks.Sound := Session.sound_run memory past
    have hfailure : failed.callbacks.Sound :=
      hcallbacks ▸ (Callbacks.goes_refused s.callbacks hbefore).1
    have hgoes : failed.callbacks.Goes (failed.run tfhe useCufhepp later).2.callbacks :=
      Session.goes_events failed later
    obtain ⟨hsound, hkept⟩ := hgoes hfailure
    refine List.count_eq_one_of_mem hsound.once (hkept ?_)
    rw [hcallbacks]
    exact List.mem_append_right _ List.mem_cons_self
  · have hprepared : (failed.run tfhe useCufhepp later).1
        = (prepared.run tfhe useCufhepp later).1 :=
      (hindistinct.run hgranted).1.symm
    refine ⟨hprepared, fun honce hkey => hprepared.trans ?_⟩
    exact ((Session.indistinct_prepared hs honce hkey).run fun event _ =>
      Session.granted_empty event).1.symm

/-- `clearTFHE`, under any number of keys. -/
def clearTFHEs : TFHE Nat Bool := clearTFHE

/-- A gate fails under a key that another one has bound. -/
theorem failed_submission_and :
    let s := ((Session.start fun _ => true : Session Unit Nat Bool).run clearTFHEs true
      [.call () (.runIyokanStarpu (.binaryGate .NAND 2 0 1 7)) {} true]).2
    let later : List (Event Unit Nat Bool) :=
      [.call () (.runIyokanStarpu (.binaryGate .OR 2 0 1 7)) {} false]
    ∃ failed, s.step clearTFHEs true
        (.call () (.runIyokanStarpu (.binaryGate .AND 3 0 1 7)) { insert := -19 } false)
          = (.error "Tangor could not submit an asynchronous StarPU gate", failed) ∧
      (failed.run clearTFHEs true later).1 = (s.run clearTFHEs true later).1 := by
  intro s later
  obtain ⟨failed, hfailed, -, -, -, hlater⟩ := failed_submission clearTFHEs true (fun _ => true)
    [.call () (.runIyokanStarpu (.binaryGate .NAND 2 0 1 7)) {} true] () (.binaryGate .AND 3 0 1 7)
    { insert := -19 } false (by decide) rfl
  exact ⟨failed, hfailed, ((hlater later).2 (by simp [later, Event.Granted, ApiCall.Granted])).2
    rfl (Or.inr rfl)⟩

/-- A gate that fails first of all calls leaves its key bound, StarPU started and its
operands registered.  Without it, another key is accepted, StarPU can be configured, and a
`mark` function has nothing to ask. -/
theorem failed_submission_traces :
    let s : Session Unit Nat Bool := Session.start fun _ => true
    let failed := s.step clearTFHEs false
      (.call () (.runIyokanStarpu (.binaryGate .AND 2 0 1 7)) { insert := -19 } false)
    let nand : Event Unit Nat Bool :=
      .call () (.runIyokanStarpu (.binaryGate .NAND 2 0 1 8)) {} false
    let configure : Event Unit Nat Bool := .call () (.configureIyokanStarpu 4 0) {} false
    let mark : Event Unit Nat Bool := .call () (.markIyokanTLWEHostWrite 0) { acquire := -22 } false
    failed.1 = .error "Tangor could not submit an asynchronous StarPU gate" ∧
      (failed.2.step clearTFHEs false nand).1 = .error
        "Tangor's KVSP StarPU backend cannot evaluate two keys in one process" ∧
      (s.step clearTFHEs false nand).1 = .ok none ∧
      (failed.2.step clearTFHEs false configure).1 = .error
        "Tangor's StarPU worker configuration is already active" ∧
      (s.step clearTFHEs false configure).1 = .ok none ∧
      (failed.2.step clearTFHEs false mark).1 = .error "Tangor could not mark a CPU TLWE write" ∧
      (s.step clearTFHEs false mark).1 = .ok none :=
  ⟨rfl, rfl, rfl, rfl, rfl, rfl, rfl⟩

end Tangor.Iyokan
