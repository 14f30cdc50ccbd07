/-
No use of a dead runtime.

`Starpu` follows the calls the backend makes: whether StarPU is up, and which handles are
registered.  `Served` is the specification: every task, data or query call is made while
StarPU is up, on handles that are registered.

`Live` is the invariant that keeps the backend to it.  What it says of the flags is that
`starpuRunning` is the truth about StarPU; `starpuInitStatus`, the flag the gate calls
look at, is not, because `shutdownIyokanStarpu` leaves it at 0.  A gate call after a
shutdown therefore goes through: the run is served exactly when there is no such call.
-/
import Tangor.Proofs.Backend
import Mathlib.Tactic.Common

namespace Tangor.Iyokan

open Throwing

variable {Key : Type}

/-! ### What StarPU allows -/

/-- StarPU, as the calls made to it left it. -/
structure Starpu where
  up : Bool := false
  registered : List Handle := []

namespace Starpu

def after (s : Starpu) : LibraryCall Key → Starpu
  | .starpuInit _ _ status => { s with up := decide (status = 0) }
  | .starpuShutdown => { s with up := false }
  | .vectorDataRegister handle _ => { s with registered := handle :: s.registered }
  | .variableDataRegister handle _ _ => { s with registered := handle :: s.registered }
  | .dataUnregisterNoCoherency handle => { s with registered := s.registered.erase handle }
  | _ => s

/-- The call is made while StarPU is up, and on registered handles. -/
def Serves (s : Starpu) : LibraryCall Key → Prop
  | .vectorDataRegister _ _ | .variableDataRegister _ _ _ | .taskWaitForAll
  | .cudaWorkerGetCount | .starpuShutdown => s.up = true
  | .dataUnregisterNoCoherency handle | .dataAcquire handle _ | .dataRelease handle =>
      s.up = true ∧ handle ∈ s.registered
  | .taskInsert _ buffers _ => s.up = true ∧ ∀ buffer ∈ buffers, buffer.2 ∈ s.registered
  | .starpuInit _ _ _ | .cufheInitialize _ | .cufheCleanUp | .atexit _ => True

def replay (s : Starpu) (calls : List (LibraryCall Key)) : Starpu := calls.foldl after s

/-- Every call of the list is served. -/
def Served (s : Starpu) : List (LibraryCall Key) → Prop
  | [] => True
  | call :: rest => s.Serves call ∧ (s.after call).Served rest

theorem replay_append (s : Starpu) (calls rest : List (LibraryCall Key)) :
    s.replay (calls ++ rest) = (s.replay calls).replay rest := List.foldl_append ..

theorem replay_concat (s : Starpu) (calls : List (LibraryCall Key)) (call : LibraryCall Key) :
    s.replay (calls ++ [call]) = (s.replay calls).after call := replay_append ..

theorem served_append {s : Starpu} {calls rest : List (LibraryCall Key)} :
    s.Served (calls ++ rest) ↔ s.Served calls ∧ (s.replay calls).Served rest := by
  induction calls generalizing s with
  | nil => exact ⟨fun h => ⟨trivial, h⟩, fun h => h.2⟩
  | cons call calls ih =>
      show s.Serves call ∧ (s.after call).Served (calls ++ rest) ↔ _
      rw [ih, ← and_assoc]
      rfl

theorem served_concat {s : Starpu} {calls : List (LibraryCall Key)} {call : LibraryCall Key} :
    s.Served (calls ++ [call]) ↔ s.Served calls ∧ (s.replay calls).Serves call := by
  rw [served_append]
  exact and_congr_right fun _ => and_iff_left trivial

/-- Registered handles can be unregistered one after the other. -/
theorem served_unregister (Key : Type) {s : Starpu} {handles : List Handle} (hup : s.up = true)
    (hnodup : handles.Nodup) (hreg : ∀ h ∈ handles, h ∈ s.registered) :
    s.Served (handles.map (.dataUnregisterNoCoherency : Handle → LibraryCall Key)) ∧
      (s.replay (handles.map (.dataUnregisterNoCoherency : Handle → LibraryCall Key))).up
        = true ∧
      (s.replay (handles.map (.dataUnregisterNoCoherency : Handle → LibraryCall Key))).registered
        ⊆ s.registered := by
  induction handles generalizing s with
  | nil => exact ⟨trivial, hup, List.Subset.refl _⟩
  | cons h rest ih =>
      have hrest := ih (s := { s with registered := s.registered.erase h }) hup
        (List.nodup_cons.mp hnodup).2 fun x hx => by
          have hne : x ≠ h := by
            rintro rfl
            exact (List.nodup_cons.mp hnodup).1 hx
          exact (List.mem_erase_of_ne hne).mpr (hreg x (List.mem_cons_of_mem _ hx))
      exact ⟨⟨⟨hup, hreg h List.mem_cons_self⟩, hrest.1⟩, hrest.2.1,
        fun x hx => List.mem_of_mem_erase (hrest.2.2 hx)⟩

end Starpu

/-- StarPU after the calls of the process. -/
def World.starpu (w : World Key) : Starpu := Starpu.replay {} w.calls

/-- Every call of the process was served. -/
def World.Served (w : World Key) : Prop := Starpu.Served {} w.calls

/-- A shutdown has ended StarPU. -/
def World.Stopped (w : World Key) : Prop := w.starpuInitStatus = 0 ∧ w.starpuRunning = false

/-- What holds between two calls, and between the parts of one. -/
structure Live (w : World Key) : Prop where
  served : w.Served
  up : w.starpu.up = w.starpuRunning
  fresh : w.starpuInitOnce = false → w.starpuInitStatus = -1 ∧ w.starpuRunning = false
  init : w.starpuRunning = true → w.starpuInitStatus = 0
  known : ∀ h ∈ w.handles, h ∈ w.starpu.registered
  nodup : w.handles.Nodup
  bound : ∀ h ∈ w.starpu.registered, h < w.nextHandle
  empty : w.starpuRunning = false → w.persistentHandles = [] ∧ w.persistentVariableHandles = []
  tokens : w.starpuRunning = true → ∀ state ∈ w.states, state.output ∈ w.starpu.registered
  inited : w.states ≠ [] → w.starpuInitStatus = 0

theorem live_start : Live ({} : World Key) where
  served := trivial
  up := rfl
  fresh := fun _ => ⟨rfl, rfl⟩
  init := by simp
  known := by simp [World.handles]
  nodup := by simp [World.handles]
  bound := by simp [World.starpu, Starpu.replay]
  empty := fun _ => ⟨rfl, rfl⟩
  tokens := by simp
  inited := by simp

/-- The invariant with StarPU up. -/
structure Running (w : World Key) : Prop extends Live w where
  running : w.starpuRunning = true

theorem Running.starpu_up {w : World Key} (hw : Running w) : w.starpu.up = true :=
  hw.up.trans hw.running

theorem Live.running_of_not_stopped {w : World Key} (hw : Live w) (hns : ¬ w.Stopped)
    (hstatus : w.starpuInitStatus = 0) : Running w := by
  refine ⟨hw, ?_⟩
  cases hrun : w.starpuRunning with
  | true => rfl
  | false => exact absurd ⟨hstatus, hrun⟩ hns

theorem Live.once {w : World Key} (hw : Live w) (hstatus : w.starpuInitStatus = 0) :
    w.starpuInitOnce = true := by
  cases honce : w.starpuInitOnce with
  | true => rfl
  | false =>
      rw [(hw.fresh honce).1] at hstatus
      exact absurd hstatus (by decide)

/-! ### The parts keep the invariant -/

theorem starpu_call (w : World Key) (call : LibraryCall Key) :
    (w.call call).starpu = w.starpu.after call := Starpu.replay_concat {} w.calls call

theorem served_call {w : World Key} {call : LibraryCall Key} :
    (w.call call).Served ↔ w.Served ∧ w.starpu.Serves call := Starpu.served_concat

/-- A call that StarPU serves and that registers nothing. -/
theorem Live.call {w : World Key} (hw : Live w) {call : LibraryCall Key}
    (hserves : w.starpu.Serves call) (hafter : ∀ s : Starpu, s.after call = s) :
    Live (w.call call) := by
  have hstarpu : (w.call call).starpu = w.starpu := (starpu_call w call).trans (hafter _)
  exact {
    served := served_call.mpr ⟨hw.served, hserves⟩
    up := hstarpu ▸ hw.up
    fresh := hw.fresh
    init := hw.init
    known := hstarpu ▸ hw.known
    nodup := hw.nodup
    bound := hstarpu ▸ hw.bound
    empty := hw.empty
    tokens := hstarpu ▸ hw.tokens
    inited := hw.inited }

theorem Running.call {w : World Key} (hw : Running w) {call : LibraryCall Key}
    (hserves : w.starpu.Serves call) (hafter : ∀ s : Starpu, s.after call = s) :
    Running (w.call call) := ⟨hw.toLive.call hserves hafter, hw.running⟩

theorem starpu_afterInit (w : World Key) (answers : Answers) :
    (w.afterInit answers).starpu = { w.starpu with up := decide (answers.init = 0) } := by
  by_cases hinit : answers.init = 0 <;>
    simp [World.starpu, World.afterInit, Starpu.replay, Starpu.after, hinit]

theorem Live.afterInit {w : World Key} (hw : Live w) (honce : w.starpuInitOnce = false)
    (answers : Answers) : Live (w.afterInit answers) := by
  obtain ⟨hstatus, hrun⟩ := hw.fresh honce
  have hstarpu := starpu_afterInit w answers
  have hrunning : (w.afterInit answers).starpuRunning = decide (answers.init = 0) := by
    simp [World.afterInit, hrun]
  have hstates : w.states = [] := by
    by_contra hne
    rw [hw.inited hne] at hstatus
    exact absurd hstatus (by decide)
  exact {
    served := by
      refine Starpu.served_append.mpr ⟨hw.served, trivial, ?_⟩
      by_cases hinit : answers.init = 0 <;> simp [Starpu.Served, Starpu.Serves, hinit]
    up := by rw [hstarpu, hrunning]
    fresh := fun h => absurd h (by simp [World.afterInit])
    init := fun h => by
      rw [hrunning] at h
      exact of_decide_eq_true h
    known := hstarpu ▸ hw.known
    nodup := hw.nodup
    bound := hstarpu ▸ hw.bound
    empty := fun _ => hw.empty hrun
    tokens := fun _ state hstate => by
      rw [show (w.afterInit answers).states = w.states from rfl, hstates] at hstate
      exact absurd hstate List.not_mem_nil
    inited := fun h => absurd hstates h }

/-- Binding a key changes nothing the invariant speaks of. -/
theorem Running.setKey {w : World Key} (hw : Running w) (key : Option Key) :
    Running { w with currentEvalKey := key } :=
  ⟨⟨hw.served, hw.up, hw.fresh, hw.init, hw.known, hw.nodup, hw.bound, hw.empty, hw.tokens,
    hw.inited⟩, hw.running⟩

theorem Running.setCufhepp {w : World Key} (hw : Running w) (initialized : Bool) :
    Running { w with cufheppInitialized := initialized } :=
  ⟨⟨hw.served, hw.up, hw.fresh, hw.init, hw.known, hw.nodup, hw.bound, hw.empty, hw.tokens,
    hw.inited⟩, hw.running⟩

theorem Running.initializeCufhepp {w : World Key} (hw : Running w) (answers : Answers)
    (evalKey : Key) : Running (w.initializeCufhepp answers evalKey) := by
  have hcount : Running (w.call .cudaWorkerGetCount) := hw.call hw.starpu_up fun _ => rfl
  have hinit : Running ((w.call .cudaWorkerGetCount).call (.cufheInitialize evalKey)) :=
    hcount.call trivial fun _ => rfl
  have hexit : Running (((w.call .cudaWorkerGetCount).call (.cufheInitialize evalKey)).call
      (.atexit .cleanupIyokanCufhepp)) := hinit.call trivial fun _ => rfl
  unfold World.initializeCufhepp
  split_ifs
  · exact hw
  · exact hexit.setCufhepp true
  · exact hcount

theorem Running.bind [DecidableEq Key] {w : World Key} (hw : Running w) (useCufhepp : Bool)
    (answers : Answers) (evalKey : Key) : Running (w.bind useCufhepp answers evalKey) := by
  unfold World.bind
  cases useCufhepp with
  | true => exact (hw.setKey (some evalKey)).initializeCufhepp answers evalKey
  | false => exact hw.setKey (some evalKey)

theorem handles_emplace (w : World Key) (handle : Handle) (place : Place) :
    (w.emplace handle place).handles.Perm (handle :: w.handles) := by
  rcases place with ⟨_ | _, address⟩
  · exact List.Perm.refl _
  · exact List.perm_middle

theorem calls_register (w : World Key) (access : Access) :
    (w.register access.place access.registerCall).calls
      = w.calls ++ [access.registerCall w.nextHandle] := by
  rcases access with ⟨mode, _ | _ | _, address⟩ <;> rfl

theorem serves_registerCall (s : Starpu) (access : Access) (handle : Handle) :
    s.Serves (access.registerCall handle : LibraryCall Key) ↔ s.up = true := by
  rcases access with ⟨mode, _ | _ | _, address⟩ <;> exact Iff.rfl

theorem served_register {w : World Key} {access : Access} :
    (w.register access.place access.registerCall).Served ↔ w.Served ∧ w.starpu.up = true := by
  unfold World.Served
  rw [calls_register, Starpu.served_concat, serves_registerCall]
  rfl

theorem starpu_register (w : World Key) (access : Access) :
    (w.register access.place access.registerCall).starpu
      = { w.starpu with registered := w.nextHandle :: w.starpu.registered } := by
  unfold World.starpu
  rw [calls_register, Starpu.replay_concat]
  rcases access with ⟨mode, _ | _ | _, address⟩ <;> rfl

/-- A new handle enters a registry and StarPU at once. -/
theorem Running.register {w : World Key} (hw : Running w) (access : Access) :
    Running (w.register access.place access.registerCall) := by
  have hstarpu := starpu_register w access
  have hhandles : (w.register access.place access.registerCall).handles.Perm
      (w.nextHandle :: w.handles) :=
    handles_emplace (w.call (access.registerCall w.nextHandle)) w.nextHandle access.place
  have hnew : w.nextHandle ∉ w.handles := fun hmem =>
    absurd (hw.bound _ (hw.known _ hmem)) (Nat.lt_irrefl _)
  have hsame : (w.register access.place access.registerCall).starpuRunning = w.starpuRunning ∧
      (w.register access.place access.registerCall).starpuInitStatus = w.starpuInitStatus ∧
      (w.register access.place access.registerCall).starpuInitOnce = w.starpuInitOnce ∧
      (w.register access.place access.registerCall).states = w.states := by
    rcases access with ⟨mode, _ | _ | _, address⟩ <;> exact ⟨rfl, rfl, rfl, rfl⟩
  obtain ⟨hrunning, hstatus, honce, hstates⟩ := hsame
  refine ⟨{
    served := served_register.mpr ⟨hw.served, hw.starpu_up⟩
    up := by rw [hstarpu, hrunning]; exact hw.up
    fresh := by rw [honce, hstatus, hrunning]; exact hw.fresh
    init := by rw [hrunning, hstatus]; exact hw.init
    known := fun h hh => by
      rw [hstarpu]
      rcases List.mem_cons.mp (hhandles.mem_iff.mp hh) with rfl | hold
      · exact List.mem_cons_self
      · exact List.mem_cons_of_mem _ (hw.known h hold)
    nodup := hhandles.nodup_iff.mpr (List.nodup_cons.mpr ⟨hnew, hw.nodup⟩)
    bound := fun h hh => by
      rw [hstarpu] at hh
      show h < w.nextHandle + 1
      rcases List.mem_cons.mp hh with rfl | hold
      · exact Nat.lt_succ_self _
      · exact Nat.lt_succ_of_lt (hw.bound h hold)
    empty := fun h => by
      rw [hrunning, hw.running] at h
      exact absurd h (by decide)
    tokens := fun _ state hstate => by
      rw [hstates] at hstate
      rw [hstarpu]
      exact List.mem_cons_of_mem _ (hw.tokens hw.running state hstate)
    inited := by rw [hstates, hstatus]; exact hw.inited }, hrunning.trans hw.running⟩

/-- A token over a registered handle. -/
theorem Running.addTask {w : World Key} (hw : Running w) {output : Handle}
    (hout : output ∈ w.starpu.registered) : Running (w.addTask output) := by
  refine ⟨⟨hw.served, hw.up, hw.fresh, hw.init, hw.known, hw.nodup, hw.bound, hw.empty, ?_,
    fun _ => hw.init hw.running⟩, hw.running⟩
  intro _ state hstate
  rcases List.mem_append.mp hstate with hold | hnew
  · exact hw.tokens hw.running state hold
  · rw [List.mem_singleton.mp hnew]
    exact hout

/-- Changing a token but not its output. -/
theorem Live.modifyState {w : World Key} (hw : Live w) (task : IyokanStarpuTask)
    (f : TaskState → TaskState) (hf : ∀ state, (f state).output = state.output) :
    Live { w with states := w.states.modify task f } := by
  refine ⟨hw.served, hw.up, hw.fresh, hw.init, hw.known, hw.nodup, hw.bound, hw.empty, ?_, ?_⟩
  · intro hrun state hstate
    obtain ⟨i, hi⟩ := List.mem_iff_getElem?.mp hstate
    rw [List.getElem?_modify] at hi
    obtain ⟨old, hold, rfl⟩ := Option.map_eq_some_iff.mp hi
    have := hw.tokens hrun old (List.mem_of_getElem? hold)
    split
    · rw [hf old]
      exact this
    · exact this
  · intro hne
    refine hw.inited fun hnil => hne ?_
    simp [hnil]

theorem Live.complete {w : World Key} (hw : Live w) (task : IyokanStarpuTask) :
    Live (w.complete task) :=
  hw.modifyState task (fun s => { s with finished := true }) fun _ => rfl

theorem Live.fail {w : World Key} (hw : Live w) (task : IyokanStarpuTask) (error : Int) :
    Live (w.fail task error) := hw.modifyState task (fun s => { s with error := error }) fun _ => rfl

/-- What a shutdown calls after all handles have been given back. -/
theorem calls_shutdown (w : World Key) (useCufhepp : Bool) :
    (w.shutdown useCufhepp).calls = w.unregister.calls ++ [.starpuShutdown] ∨
      (w.shutdown useCufhepp).calls
        = w.unregister.calls ++ [.cufheCleanUp, .starpuShutdown] := by
  cases useCufhepp with
  | false => exact Or.inl rfl
  | true =>
      simp only [World.shutdown, World.cleanupCufhepp, if_true]
      split_ifs
      · exact Or.inr (List.append_assoc ..)
      · exact Or.inl rfl

/-- What a shutdown leaves of the other globals. -/
theorem shutdown_frame (w : World Key) (useCufhepp : Bool) :
    (w.shutdown useCufhepp).starpuInitStatus = w.starpuInitStatus ∧
      (w.shutdown useCufhepp).starpuInitOnce = w.starpuInitOnce ∧
      (w.shutdown useCufhepp).starpuRunning = false ∧
      (w.shutdown useCufhepp).persistentHandles = [] ∧
      (w.shutdown useCufhepp).persistentVariableHandles = [] ∧
      (w.shutdown useCufhepp).nextHandle = w.nextHandle := by
  cases useCufhepp <;> cases hinit : w.cufheppInitialized <;>
    simp [World.shutdown, World.cleanupCufhepp, World.unregister, World.call, hinit]

theorem states_shutdown (w : World Key) (useCufhepp : Bool) :
    (w.shutdown useCufhepp).states = w.states := by
  cases useCufhepp with
  | false => rfl
  | true =>
      simp only [World.shutdown, World.cleanupCufhepp, if_true]
      split_ifs <;> rfl

/-- A shutdown gives back every handle, once each, and only then ends StarPU. -/
theorem Running.shutdown {w : World Key} (hw : Running w) (useCufhepp : Bool) :
    Live (w.shutdown useCufhepp) := by
  have hwait : Running (w.call .taskWaitForAll) := hw.call hw.starpu_up fun _ => rfl
  obtain ⟨hserved, hup, hsub⟩ := Starpu.served_unregister Key hwait.starpu_up hwait.nodup
    hwait.known
  have hstarpu : w.unregister.starpu = _ := Starpu.replay_append {} (w.call .taskWaitForAll).calls
    (w.handles.map .dataUnregisterNoCoherency)
  have hall : w.unregister.Served := Starpu.served_append.mpr ⟨hwait.served, hserved⟩
  obtain ⟨hstatus, honce, hrun, hph, hpv, hnext⟩ := shutdown_frame w useCufhepp
  have hend : (w.shutdown useCufhepp).Served ∧ (w.shutdown useCufhepp).starpu
      = { w.unregister.starpu with up := false } := by
    have hup' : w.unregister.starpu.up = true := hstarpu ▸ hup
    unfold World.Served World.starpu
    rcases calls_shutdown w useCufhepp with h | h
    · rw [h, Starpu.served_concat, Starpu.replay_concat]
      exact ⟨⟨hall, hup'⟩, rfl⟩
    · rw [h, Starpu.served_append, Starpu.replay_append]
      exact ⟨⟨hall, trivial, hup', trivial⟩, rfl⟩
  exact {
    served := hend.1
    up := by rw [hend.2, hrun]
    fresh := by rw [honce, hstatus, hrun]; exact fun h => ⟨(hw.fresh h).1, rfl⟩
    init := fun h => absurd h (by rw [hrun]; decide)
    known := by simp [World.handles, hph, hpv]
    nodup := by simp [World.handles, hph, hpv]
    bound := fun h hh => by
      rw [hend.2, hstarpu] at hh
      rw [hnext]
      exact hwait.bound h (hsub hh)
    empty := fun _ => ⟨hph, hpv⟩
    tokens := fun h => absurd h (by rw [hrun]; decide)
    inited := fun _ => hstatus.trans (hw.init hw.running) }

/-! ### The calls of the interface keep it -/

theorem ensureStarpuRuntime_ensures (answers : Answers) :
    Ensures (fun w : World Key => Live w ∧ ¬ w.Stopped) (ensureStarpuRuntime answers)
      (fun _ => Running) Live := by
  rintro w ⟨hw, hns⟩
  rw [exec_ensureStarpuRuntime]
  cases honce : w.starpuInitOnce with
  | true =>
      by_cases hstatus : w.starpuInitStatus = 0
      · simpa [hstatus] using hw.running_of_not_stopped hns hstatus
      · simpa [hstatus] using hw
  | false =>
      have hinit := hw.afterInit honce answers
      by_cases hstatus : answers.init = 0
      · have hrun : (w.afterInit answers).starpuRunning = true := by
          simp [World.afterInit, hstatus]
        simpa [World.afterInit, hstatus] using Running.mk hinit hrun
      · simpa [World.afterInit, hstatus] using hinit

/-- Once StarPU has been started, only the status is looked at. -/
theorem exec_ensureStarpuRuntime_stopped {w : World Key} (hw : Live w) (hstop : w.Stopped)
    (answers : Answers) : (ensureStarpuRuntime answers).exec w = (.ok ⟨⟩, w) := by
  rw [exec_ensureStarpuRuntime]
  simp [hw.once hstop.1, hstop.1]

section Keys

variable [DecidableEq Key] (useCufhepp : Bool)

theorem bindEvalKey_ensures (answers : Answers) (evalKey : Key) :
    Ensures Running (bindEvalKey useCufhepp answers evalKey) (fun _ => Running) Live := by
  intro w hw
  by_cases hkey : w.Accepts evalKey
  · rw [exec_bindEvalKey_accepted useCufhepp answers hkey]
    exact hw.bind useCufhepp answers evalKey
  · rw [exec_bindEvalKey_rejected useCufhepp answers hkey]
    exact hw.toLive

/-- The key check of a call lets it pass. -/
def World.Admits (w : World Key) (key : Option Key) : Prop :=
  ∀ evalKey, key = some evalKey → w.Accepts evalKey

theorem ensureFor_ensures (answers : Answers) (key : Option Key) :
    Ensures (fun w => Live w ∧ ¬ (w.Stopped ∧ w.Admits key)) (ensureFor useCufhepp answers key)
      (fun _ => Running) Live := by
  rintro w ⟨hw, hlate⟩
  cases key with
  | none =>
      refine ensureStarpuRuntime_ensures answers w ⟨hw, fun hstop => hlate ⟨hstop, ?_⟩⟩
      intro evalKey h
      exact absurd h (by simp)
  | some evalKey =>
      by_cases hstop : w.Stopped
      · -- The key is the wrong one, and the call throws before it uses StarPU.
        have hkey : ¬ w.Accepts evalKey := fun hkey => hlate ⟨hstop, fun k hk => by
          rw [← Option.some.inj hk]
          exact hkey⟩
        have hexec : (ensureFor useCufhepp answers (some evalKey)).exec w = _ :=
          (exec_bind_ok (exec_ensureStarpuRuntime_stopped hw hstop answers)).trans
            (exec_bindEvalKey_rejected useCufhepp answers hkey)
        rw [hexec]
        exact hw
      · exact ((ensureStarpuRuntime_ensures answers).bind fun _ =>
          bindEvalKey_ensures useCufhepp answers evalKey) w ⟨hw, hstop⟩

end Keys

theorem handleFor_ensures (access : Access) (handles : List Handle) :
    Ensures (fun w : World Key => Running w ∧ ∀ h ∈ handles, h ∈ w.starpu.registered)
      (handleFor access)
      (fun handle w => Running w ∧ ∀ h ∈ handles ++ [handle], h ∈ w.starpu.registered) Live := by
  rintro w ⟨hw, hall⟩
  rw [exec_handleFor]
  cases hfind : w.find access.place with
  | some handle =>
      refine ⟨hw, fun h hh => ?_⟩
      rcases List.mem_append.mp hh with hold | hnew
      · exact hall h hold
      · rw [List.mem_singleton.mp hnew]
        exact hw.known handle (find_mem_handles hfind)
  | none =>
      refine ⟨hw.register access, fun h hh => ?_⟩
      rw [starpu_register]
      rcases List.mem_append.mp hh with hold | hnew
      · exact List.mem_cons_of_mem _ (hall h hold)
      · rw [List.mem_singleton.mp hnew]
        exact List.mem_cons_self

theorem insertTask_ensures (answers : Answers) (submission : Submission) (handles : List Handle)
    (hlen : handles ≠ []) :
    Ensures (fun w : World Key => Running w ∧ ∀ h ∈ handles, h ∈ w.starpu.registered)
      (insertTask answers submission handles) (fun _ => Running) Live := by
  rintro w ⟨hw, hall⟩
  have hcall : Running (w.call (submission.insertCall handles answers.insert)) := by
    refine hw.call ⟨hw.starpu_up, fun buffer hbuffer => ?_⟩ fun _ => rfl
    exact hall buffer.2 (List.of_mem_zip hbuffer).2
  rw [exec_insertTask]
  split_ifs
  · refine hcall.addTask ?_
    rw [starpu_call]
    exact hall _ (by
      cases handles with
      | nil => exact absurd rfl hlen
      | cons h rest => exact List.mem_cons_self)
  · exact hcall.toLive

theorem submit_ensures (answers : Answers) (submission : Submission) :
    Ensures (Running : World Key → Prop) (submit answers submission) (fun _ => Running) Live := by
  -- The loop over the operands keeps StarPU up and collects registered handles.
  let I : List Access → List Handle → World Key → Prop := fun pre handles w =>
    pre.length = handles.length ∧ Running w ∧ ∀ h ∈ handles, h ∈ w.starpu.registered
  have hloop : Ensures (I [] []) (submission.accesses.mapM handleFor) (I submission.accesses)
      Live := by
    refine Ensures.mapM I fun pre handles access post _ => ?_
    rintro w ⟨hlen, hw⟩
    have hbody := handleFor_ensures access handles w hw
    split at hbody
    · exact ⟨by simp [hlen], hbody⟩
    · exact hbody
  refine Ensures.bind (hloop.weaken (fun w hw => ⟨rfl, hw, by simp⟩) (fun _ _ h => h)
    fun _ h => h) fun handles => ?_
  rintro w ⟨hlen, hw⟩
  refine insertTask_ensures answers submission handles ?_ w hw
  rintro rfl
  exact absurd hlen (by simp [Submission.accesses])

theorem synchronizeOutput_ensures (answers : Answers) (task : IyokanStarpuTask) :
    Ensures (Running : World Key → Prop) (synchronizeOutput answers task) (fun _ => Running)
      Live := by
  intro w hw
  cases hstate : w.states[task]? with
  | none =>
      rw [exec_synchronizeOutput_none answers hstate]
      exact hw
  | some state =>
      have hout := hw.tokens hw.running state (List.mem_of_getElem? hstate)
      have hacquire : Running (w.call (.dataAcquire state.output .R)) :=
        hw.call ⟨hw.starpu_up, hout⟩ fun _ => rfl
      rw [exec_synchronizeOutput_some answers hstate]
      split_ifs
      · have hserves : (w.call (.dataAcquire state.output .R)).starpu.Serves
            (.dataRelease state.output : LibraryCall Key) :=
          ⟨hacquire.starpu_up, by rw [starpu_call]; exact hout⟩
        exact hacquire.call hserves fun _ => rfl
      · exact hacquire.toLive.fail task answers.acquire
      · exact hw.toLive

theorem waitForTask_ensures (answers : Answers) (task : IyokanStarpuTask) :
    Ensures (Running : World Key → Prop) (waitForTask answers task) (fun _ => Running) Live := by
  refine Ensures.bind (Q := fun _ => Running) (fun w hw => ?_) fun _ =>
    synchronizeOutput_ensures answers task
  rw [exec_taskCompleted]
  exact ⟨hw.toLive.complete task, hw.running⟩

/-- A registered object is marked while StarPU is up; nothing is done for others. -/
theorem acquireForWrite_ensures (answers : Answers) (failure : String) (place : Place) :
    Ensures (Live : World Key → Prop)
      (do acquireForWrite answers failure ((← get).find place)) (fun _ => Live) Live := by
  intro w hw
  rw [exec_get_bind]
  cases hfind : w.find place with
  | none => exact hw
  | some handle =>
      have hmem := find_mem_handles hfind
      have hrun : Running w := by
        refine ⟨hw, ?_⟩
        cases hrun : w.starpuRunning with
        | true => rfl
        | false =>
            obtain ⟨hph, hpv⟩ := hw.empty hrun
            exact absurd hmem (by simp [World.handles, hph, hpv])
      have hacquire : Running (w.call (.dataAcquire handle .W)) :=
        hrun.call ⟨hrun.starpu_up, hw.known handle hmem⟩ fun _ => rfl
      have hserves : (w.call (.dataAcquire handle .W)).starpu.Serves
          (.dataRelease handle : LibraryCall Key) :=
        ⟨hacquire.starpu_up, by rw [starpu_call]; exact hw.known handle hmem⟩
      have hrelease := hacquire.call hserves fun _ => rfl
      rw [exec_acquireForWrite]
      split_ifs
      · exact hrelease.toLive
      · exact hacquire.toLive

theorem configureIyokanStarpu_ensures (cpuWorkers cudaDevices : Nat) :
    Ensures (Live : World Key → Prop) (configureIyokanStarpu cpuWorkers cudaDevices)
      (fun _ => Live) Live := by
  intro w hw
  have hset : Live { w with
      configuredCpuWorkers := cpuWorkers, configuredCudaDevices := cudaDevices } :=
    ⟨hw.served, hw.up, hw.fresh, hw.init, hw.known, hw.nodup, hw.bound, hw.empty, hw.tokens,
      hw.inited⟩
  rw [exec_configureIyokanStarpu]
  split_ifs
  · exact hw
  · exact hset

theorem shutdownIyokanStarpu_ensures (useCufhepp : Bool) :
    Ensures (Live : World Key → Prop) (shutdownIyokanStarpu useCufhepp) (fun _ => Live) Live := by
  intro w hw
  rw [exec_shutdownIyokanStarpu]
  cases hrun : w.starpuRunning with
  | true => exact Running.shutdown ⟨hw, hrun⟩ useCufhepp
  | false => exact hw

/-! ### Calls that come too late -/

/-- The token's output can still be asked for. -/
def World.Pending (w : World Key) (task : IyokanStarpuTask) : Prop :=
  ∃ state, w.states[task]? = some state ∧ state.error = 0

/-- The call gets as far as using StarPU, which a shutdown has ended. -/
def Process.Late (p : Process Key) : ApiCall Key → Prop
  | .prepareIyokanStarpu evalKey => p.world.Stopped ∧ p.world.Admits (some evalKey)
  | .runIyokanStarpu call => p.world.Stopped ∧ p.world.Admits call.evalKey
  | .synchronizeOutput task => p.world.Stopped ∧ p.world.Pending task
  | .synchronizeIyokanStarpuCapture =>
      p.world.Stopped ∧ p.thread.captureActive = true ∧
        ∃ task, p.thread.capturedTask = some task ∧ p.world.Pending task
  | _ => False

/-- The output of a token is asked for while StarPU is up, or not at all. -/
theorem synchronizeOutput_live {w : World Key} (hw : Live w) (answers : Answers)
    {task : IyokanStarpuTask} (hlate : ¬ (w.Stopped ∧ w.Pending task)) :
    Running w ∨ (synchronizeOutput answers task).exec w = (.ok ⟨⟩, w) ∧ w.states[task]? = none ∨
      ∃ text, (synchronizeOutput answers task).exec w = (.error text, w) := by
  cases hstate : w.states[task]? with
  | none => exact Or.inr (Or.inl ⟨exec_synchronizeOutput_none answers hstate, rfl⟩)
  | some state =>
      have hstatus : w.starpuInitStatus = 0 := by
        refine hw.inited ?_
        rintro hnil
        rw [hnil] at hstate
        exact absurd hstate (by simp)
      by_cases herror : state.error = 0
      · exact Or.inl (hw.running_of_not_stopped (fun hstop => hlate ⟨hstop, state, hstate, herror⟩)
          hstatus)
      · refine Or.inr (Or.inr ⟨"Tangor could not synchronize a StarPU output", ?_⟩)
        rw [exec_synchronizeOutput_some answers hstate, if_neg herror]

theorem pending_complete (w : World Key) (task : IyokanStarpuTask) :
    (w.complete task).Pending task ↔ w.Pending task := by
  unfold World.Pending World.complete
  cases hstate : w.states[task]? <;> simp [hstate]

theorem waitForTask_live {w : World Key} (hw : Live w) (answers : Answers)
    {task : IyokanStarpuTask} (hlate : ¬ (w.Stopped ∧ w.Pending task)) :
    Live ((waitForTask answers task).exec w).2 := by
  have hw' := hw.complete task
  have hlate' : ¬ ((w.complete task).Stopped ∧ (w.complete task).Pending task) := by
    rw [pending_complete]
    exact hlate
  have hexec : (waitForTask answers task).exec w
      = (synchronizeOutput answers task).exec (w.complete task) :=
    exec_bind_ok (exec_taskCompleted task w)
  rw [hexec]
  rcases synchronizeOutput_live hw' answers hlate' with hrun | ⟨h, -⟩ | ⟨text, h⟩
  · have := synchronizeOutput_ensures answers task _ hrun
    split at this <;> rename_i heq <;> rw [heq]
    · exact this.toLive
    · exact this
  · rw [h]
    exact hw'
  · rw [h]
    exact hw'

/-- The calls that are served by StarPU or have to throw. -/
def Process.Needs (p : Process Key) : ApiCall Key → Prop
  | .prepareIyokanStarpu _ | .runIyokanStarpu _ => True
  | .synchronizeOutput task => task < p.world.states.length
  | _ => False

variable [DecidableEq Key] (useCufhepp : Bool)

theorem runIyokanStarpu_ensures (answers : Answers) (call : GateCall Key) (thread : ThreadLocal) :
    Ensures (fun w => Live w ∧ ¬ (w.Stopped ∧ w.Admits call.evalKey))
      (runIyokanStarpu useCufhepp answers call thread) (fun _ => Running) Live := by
  unfold runIyokanStarpu
  refine (ensureFor_ensures useCufhepp answers call.evalKey).bind fun _ => ?_
  refine (submit_ensures answers call.submission).bind fun task => ?_
  cases thread.captureActive with
  | true => exact Ensures.pure fun w hw => hw
  | false => exact (waitForTask_ensures answers task).bind fun _ => Ensures.pure fun w hw => hw

/-- What is ensured of the code of a call holds of the process after it. -/
theorem perform_of_ensures {P R : World Key → Prop} {Q : ThreadLocal → World Key → Prop}
    {p : Process Key} {call : ApiCall Key} {answers : Answers}
    (h : Ensures P (call.run useCufhepp answers p.thread) Q R) (hp : P p.world) :
    ((p.perform useCufhepp call answers).1 = .ok () ∧
        ∃ thread, Q thread (p.perform useCufhepp call answers).2.world) ∨
      ((p.perform useCufhepp call answers).1 ≠ .ok () ∧
        R (p.perform useCufhepp call answers).2.world) := by
  have := h p.world hp
  unfold Process.perform
  rcases hexec : (call.run useCufhepp answers p.thread).exec p.world with ⟨text | thread, w⟩
  · rw [hexec] at this
    exact Or.inr ⟨by simp, this⟩
  · rw [hexec] at this
    exact Or.inl ⟨rfl, thread, this⟩

/-- A call that keeps the invariant and needs nothing of StarPU. -/
theorem perform_live_of {P : World Key → Prop} {p : Process Key} {call : ApiCall Key}
    {answers : Answers} (h : Ensures P (call.run useCufhepp answers p.thread) (fun _ => Live) Live)
    (hp : P p.world) : Live (p.perform useCufhepp call answers).2.world := by
  rcases perform_of_ensures useCufhepp h hp with ⟨-, -, hlive⟩ | ⟨-, hlive⟩
  · exact hlive
  · exact hlive

/-- **A call that does not come too late keeps the invariant, and returns only where
StarPU is up.** -/
theorem perform_live {p : Process Key} (hw : Live p.world) {call : ApiCall Key}
    (hlate : ¬ p.Late call) (answers : Answers) :
    Live (p.perform useCufhepp call answers).2.world ∧
      (p.Needs call → (p.perform useCufhepp call answers).1 = .ok () →
        (p.perform useCufhepp call answers).2.world.starpu.up = true) := by
  -- The calls that leave StarPU up when they return.
  have hserve : ∀ {P : World Key → Prop},
      Ensures P (call.run useCufhepp answers p.thread) (fun _ => Running) Live → P p.world →
      Live (p.perform useCufhepp call answers).2.world ∧
        (p.Needs call → (p.perform useCufhepp call answers).1 = .ok () →
          (p.perform useCufhepp call answers).2.world.starpu.up = true) := by
    intro P h hp
    rcases perform_of_ensures useCufhepp h hp with ⟨-, -, hrun⟩ | ⟨hthrow, hlive⟩
    · exact ⟨hrun.toLive, fun _ _ => hrun.starpu_up⟩
    · exact ⟨hlive, fun _ hok => absurd hok hthrow⟩
  cases call with
  | configureIyokanStarpu cpuWorkers cudaDevices =>
      refine ⟨perform_live_of useCufhepp ?_ hw, fun h => absurd h id⟩
      exact (configureIyokanStarpu_ensures cpuWorkers cudaDevices).bind fun _ =>
        Ensures.pure fun w hw => hw
  | prepareIyokanStarpu evalKey =>
      refine hserve (P := fun w => Live w ∧ ¬ (w.Stopped ∧ w.Admits (some evalKey))) ?_ ⟨hw, hlate⟩
      exact (ensureFor_ensures useCufhepp answers (some evalKey)).bind fun _ =>
        Ensures.pure fun w hw => hw
  | runIyokanStarpu call =>
      exact hserve (runIyokanStarpu_ensures useCufhepp answers call p.thread) ⟨hw, hlate⟩
  | synchronizeOutput task =>
      rcases synchronizeOutput_live hw answers hlate with hrun | ⟨h, hnone⟩ | ⟨text, h⟩
      · refine hserve (P := Running) ?_ hrun
        exact (synchronizeOutput_ensures answers task).bind fun _ => Ensures.pure fun w hw => hw
      · have hperform : p.perform useCufhepp (.synchronizeOutput task) answers = (.ok (), p) := by
          simp [Process.perform, ApiCall.run, h]
        rw [hperform]
        exact ⟨hw, fun h => absurd (List.getElem?_eq_none_iff.mp hnone) (Nat.not_le.mpr h)⟩
      · have hperform : p.perform useCufhepp (.synchronizeOutput task) answers
            = (.error text, p) := by
          simp [Process.perform, ApiCall.run, h]
        rw [hperform]
        exact ⟨hw, fun _ hok => absurd hok (by simp)⟩
  | beginIyokanStarpuCapture =>
      refine ⟨perform_live_of useCufhepp ?_ hw, fun h => absurd h id⟩
      simp only [ApiCall.run]
      split
      · exact Ensures.pure fun w hw => hw
      · exact fun w hw => hw
  | endIyokanStarpuCapture =>
      refine ⟨perform_live_of useCufhepp ?_ hw, fun h => absurd h id⟩
      simp only [ApiCall.run]
      split
      · exact Ensures.pure fun w hw => hw
      · exact fun w hw => hw
  | synchronizeIyokanStarpuCapture =>
      refine ⟨perform_live_of useCufhepp (P := fun w => w = p.world) ?_ rfl, fun h => absurd h id⟩
      rintro _ rfl
      simp only [ApiCall.run]
      cases hsync : Iyokan.synchronizeIyokanStarpuCapture p.thread with
      | error text => exact hw
      | ok captured =>
          cases captured with
          | none => exact hw
          | some task =>
              have hthread : p.thread.captureActive = true ∧ p.thread.capturedTask = some task := by
                unfold Iyokan.synchronizeIyokanStarpuCapture at hsync
                split at hsync
                · exact ⟨‹_›, Except.ok.inj hsync⟩
                · exact absurd hsync (by simp)
              have hwait := waitForTask_live hw answers fun h =>
                hlate ⟨h.1, hthread.1, task, hthread.2, h.2⟩
              rw [exec_bind]
              rcases hexec : (waitForTask answers task).exec p.world with ⟨text | _, w⟩
              · rw [hexec] at hwait
                exact hwait
              · rw [hexec] at hwait
                exact hwait
  | markIyokanTLWEHostWrite value =>
      refine ⟨perform_live_of useCufhepp ?_ hw, fun h => absurd h id⟩
      exact (acquireForWrite_ensures answers _ _).bind fun _ => Ensures.pure fun w hw => hw
  | markIyokanTRLWEHostWrite value =>
      refine ⟨perform_live_of useCufhepp ?_ hw, fun h => absurd h id⟩
      exact (acquireForWrite_ensures answers _ _).bind fun _ => Ensures.pure fun w hw => hw
  | markIyokanTRGSWFFTHostWrite value =>
      refine ⟨perform_live_of useCufhepp ?_ hw, fun h => absurd h id⟩
      exact (acquireForWrite_ensures answers _ _).bind fun _ => Ensures.pure fun w hw => hw
  | shutdownIyokanStarpu =>
      refine ⟨perform_live_of useCufhepp ?_ hw, fun h => absurd h id⟩
      exact (shutdownIyokanStarpu_ensures useCufhepp).bind fun _ => Ensures.pure fun w hw => hw

end Tangor.Iyokan
