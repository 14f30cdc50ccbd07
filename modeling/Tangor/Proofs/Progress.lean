/-
Nobody waits forever.

From whatever a run of `tangor` has come to, the workers can finish the tasks and `main` can
write the result (`exists_result`).  A thread of the backend that waits for its task can return
without any other thread: all it needs are the workers and the callbacks (`exists_returned`).
-/
import Tangor.Proofs.Schedule
import Tangor.Proofs.HostReads
import Tangor.Proofs.Captures
import Tangor.TaskGraph.Progress

namespace Tangor

open YosysJSONparser TaskGraph

/-! ### The program -/

section Program

variable {V N : Type*} [DecidableEq N] {gate : Codelet → List V → V} {main : N}
  {outs : List Slot} {s s' : MainState N V}

theorem MainStep.held (hs : s.runtime.Held) (h : MainStep gate main outs s s') :
    s'.runtime.Held := by
  cases h with
  | work phase r r' hstep => exact hs.step hstep
  | _ => exact hs

theorem held_run {tasks : List TaskInsert} {σ : Slot → V}
    (hrun : Relation.ReflTransGen (MainStep gate main outs) (MainState.start main σ tasks) s) :
    s.runtime.Held := by
  induction hrun with
  | refl => exact fun _ => Set.singleton_nonempty main
  | tail _ hstep ih => exact hstep.held ih

theorem work_spares {P : Slot → Prop} {phase : Phase V} {r r' : Runtime Slot N V}
    (hrun : Relation.ReflTransGen (Runtime.Spares P) r r') :
    Relation.ReflTransGen (MainStep gate main outs) ⟨phase, r⟩ ⟨phase, r'⟩ := by
  induction hrun with
  | refl => exact .refl
  | tail _ hstep ih => exact ih.tail (.work phase _ _ hstep.1)

/-- The handles that are left are acquired one after the other. -/
theorem acquire_rest {r : Runtime Slot N V} {rest : List Slot}
    (hmain : ∀ slot ∈ rest, main ∈ r.valid slot) :
    Relation.ReflTransGen (MainStep gate main outs) ⟨.syncing rest, r⟩ ⟨.syncing [], r⟩ := by
  induction rest with
  | nil => exact .refl
  | cons slot rest ih =>
      exact .head (.acquire slot rest r (hmain slot List.mem_cons_self))
        (ih fun x hx => hmain x (List.mem_cons_of_mem slot hx))

variable (gate main outs) in
theorem exists_result_syncing {r : Runtime Slot N V} (hr : r.Held) (rest : List Slot) :
    ∃ s' : MainState N V, Relation.ReflTransGen (MainStep gate main outs) ⟨.syncing rest, r⟩ s' ∧
      ∃ result, s'.phase = .written result := by
  obtain ⟨r', hrun, hmain, -⟩ := hr.gather (P := fun _ => False) main rest fun _ _ => id
  exact ⟨_, ((work_spares hrun).trans (acquire_rest hmain)).tail (.write r'), _, rfl⟩

variable (gate main outs) in
theorem exists_result_waiting {r : Runtime Slot N V} (hr : r.Held) :
    ∃ s' : MainState N V, Relation.ReflTransGen (MainStep gate main outs) ⟨.waiting, r⟩ s' ∧
      ∃ result, s'.phase = .written result := by
  obtain ⟨r', hrun, -, hall⟩ := hr.exists_finished (P := fun _ => False) main
    fun _ _ _ _ _ _ => id
  obtain ⟨s', hrest, hwritten⟩ := exists_result_syncing gate main outs (hr.run hrun) outs
  exact ⟨s', ((work_spares hrun).tail (.waited r' hall)).trans hrest, hwritten⟩

/-- **`main` can always get to its result**, from every state of every run: no order in which
tasks were submitted, started or moved around stops it. -/
theorem exists_result {tasks : List TaskInsert} {σ : Slot → V}
    (hrun : Relation.ReflTransGen (MainStep gate main outs) (MainState.start main σ tasks) s) :
    ∃ s', Relation.ReflTransGen (MainStep gate main outs) s s' ∧
      ∃ result, s'.phase = .written result := by
  have hheld := held_run hrun
  obtain ⟨phase, r⟩ := s
  cases phase with
  | submitting rest =>
      have hall : Runtime.Held { r with tasks := r.tasks ++ rest.map (TaskInsert.toTask gate) } :=
        hheld
      obtain ⟨s', hrest, hwritten⟩ := exists_result_waiting gate main outs hall
      exact ⟨s', ((submit_all r rest).tail (.built _)).trans hrest, hwritten⟩
  | waiting => exact exists_result_waiting gate main outs hheld
  | syncing rest => exact exists_result_syncing gate main outs hheld rest
  | written result => exact ⟨_, .refl, result, rfl⟩

end Program

/-- Two inverters in a row. -/
def inverters : List TaskInsert :=
  [⟨.clHomNOT, .cipherwire 0, [.cipherin 0], 0⟩, ⟨.clHomNOT, .cipherout 0, [.cipherwire 0], 0⟩]

/-- A device has started on the first inverter before the second one is submitted. -/
theorem exists_result_started : ∃ s s' : MainState Bool Bool,
    s.phase = .submitting (inverters.drop 1) ∧ s.runtime.Running 0 ∧
      Relation.ReflTransGen (MainStep (fun _ vs => !vs.headD false) false [.cipherout 0]) s s' ∧
      ∃ result, s'.phase = .written result := by
  have hrun : ∃ s : MainState Bool Bool,
      Relation.ReflTransGen (MainStep (fun _ vs => !vs.headD false) false [.cipherout 0])
        (MainState.start false (fun _ => false) inverters) s ∧
      s.phase = .submitting (inverters.drop 1) ∧ s.runtime.Running 0 := by
    refine reach_head (.submit _ _ _) ?_
    refine reach_head (.work _ _ _ (.transfer _ (.cipherin 0) false true rfl)) ?_
    refine reach_head (.work _ _ _ (.start _ 0 _ true false rfl (Finset.notMem_empty 0)
      (fun _ _ h => absurd h (Nat.not_lt_zero _))
      (List.forall_mem_singleton.mpr (Set.mem_insert true _)))) ?_
    exact ⟨_, .refl, rfl, Finset.mem_insert_self 0 ∅, Finset.notMem_empty 0⟩
  obtain ⟨s, hreach, hphase, hrunning⟩ := hrun
  obtain ⟨s', hrest, hwritten⟩ := exists_result hreach
  exact ⟨s, s', hphase, hrunning, hrest, hwritten⟩

end Tangor

namespace Tangor.Iyokan

open Throwing TaskGraph

variable {Tid Key N V : Type}

/-! ### The tokens the threads hold -/

/-- The task the thread waits for. -/
def Pc.token : Pc Key → Option IyokanStarpuTask
  | .waiting task | .acquiring task _ => some task
  | _ => none

theorem idle_token : (Pc.idle : Pc Key).token = none :=
  rfl

theorem ensured_token (next : Option (GateCall Key)) : (Pc.ensured next).token = none := by
  cases next <;> rfl

/-- The tokens the threads hold are of tasks that were accepted. -/
structure System.Tokens (s : System Tid Key N V) : Prop where
  pcs : ∀ t task, (s.threads t).pc.token = some task → task < s.world.states.length
  captured : ∀ t task, (s.threads t).capture.capturedTask = some task →
    task < s.world.states.length

namespace System.Tokens

variable {s : System Tid Key N V}

theorem goto [DecidableEq Tid] (hs : s.Tokens) {t : Tid} {pc : Pc Key}
    (hpc : ∀ task, pc.token = some task → task < s.world.states.length) :
    (s.goto t pc).Tokens where
  pcs := by
    intro u task hu
    rw [threads_goto] at hu
    split_ifs at hu
    · exact hpc task hu
    · exact hs.pcs u task hu
  captured := by
    intro u task hu
    refine hs.captured u task ?_
    rwa [(capture_goto s t u pc).1] at hu

/-- A thread that goes somewhere else than into a wait. -/
theorem leave [DecidableEq Tid] (hs : s.Tokens) {t : Tid} {pc : Pc Key} (hpc : pc.token = none) :
    (s.goto t pc).Tokens :=
  hs.goto fun task h => absurd (hpc.symm.trans h) (by simp)

theorem ran [Inhabited V] [DecidableEq N] {tfhe : TFHE Key V} {main : N} (hs : s.Tokens)
    {w : World Key} (hstates : w.states.length = s.world.states.length) :
    (s.ran tfhe main w).Tokens where
  pcs := fun t task h => hstates ▸ hs.pcs t task h
  captured := fun t task h => hstates ▸ hs.captured t task h

/-- A thread is replaced by one that waits for nothing. -/
theorem replace [DecidableEq Tid] (hs : s.Tokens) {t : Tid} {thread : Thread Key}
    (hpc : thread.pc.token = none)
    (hcaptured : ∀ task, thread.capture.capturedTask = some task →
      task < s.world.states.length) :
    System.Tokens { s with threads := Function.update s.threads t thread } where
  pcs := by
    intro u task hu
    dsimp only at hu
    by_cases hut : u = t
    · subst hut
      rw [Function.update_self, hpc] at hu
      exact absurd hu (by simp)
    · rw [Function.update_of_ne hut] at hu
      exact hs.pcs u task hu
  captured := by
    intro u task hu
    dsimp only at hu
    by_cases hut : u = t
    · subst hut
      rw [Function.update_self] at hu
      exact hcaptured task hu
    · rw [Function.update_of_ne hut] at hu
      exact hs.captured u task hu

/-- A thread gets the token of the task that has just been accepted. -/
theorem accepted [DecidableEq Tid] [Inhabited V] [DecidableEq N] {tfhe : TFHE Key V} {main : N}
    (hs : s.Tokens) {t : Tid} {call : GateCall Key} {w : World Key}
    (hstates : w.states.length = s.world.states.length + 1) :
    ((s.ran tfhe main w).accepted t call s.world.states.length).Tokens := by
  have hlt : s.world.states.length < w.states.length := hstates ▸ Nat.lt_succ_self _
  have hle : ∀ {task}, task < s.world.states.length → task < w.states.length :=
    fun h => Nat.lt_trans h hlt
  refine ⟨fun u task hu => ?_, fun u task hu => ?_⟩ <;> by_cases hut : u = t
  · subst hut
    by_cases hactive : (s.threads u).capture.captureActive = true
    · simp [System.accepted, System.ran, hactive, Pc.token] at hu
    · obtain rfl : s.world.states.length = task := by
        simpa [System.accepted, System.ran, hactive, Pc.token] using hu
      exact hlt
  · exact hle (hs.pcs u task (by simpa [System.accepted, System.ran, hut] using hu))
  · subst hut
    by_cases hactive : (s.threads u).capture.captureActive = true
    · obtain rfl : s.world.states.length = task := by
        simpa [System.accepted, System.ran, hactive, captureTask] using hu
      exact hlt
    · exact hle (hs.captured u task (by simpa [System.accepted, System.ran, hactive] using hu))
  · exact hle (hs.captured u task (by simpa [System.accepted, System.ran, hut] using hu))

end System.Tokens

section Steps

variable [DecidableEq Tid] [DecidableEq Key] [DecidableEq N] [Inhabited V] {tfhe : TFHE Key V}
  {main : N} {useCufhepp : Bool} {σ : Place → V} {s s' : System Tid Key N V}

theorem System.Tokens.step (hs : s.Tokens) (h : Step tfhe main useCufhepp s s') : s'.Tokens := by
  have hask : ∀ t task state, s.world.states[task]? = some state → (s.ask t task state).Tokens := by
    intro t task state hstate
    have hlt : task < s.world.states.length := (List.getElem?_eq_some_iff.mp hstate).1
    unfold System.ask
    split_ifs
    · refine System.Tokens.goto (s := s.called _) ⟨hs.pcs, hs.captured⟩ fun task' h => ?_
      exact Option.some.inj h ▸ hlt
    · exact hs.leave rfl
  cases h with
  | configure t cpuWorkers cudaDevices r w hpc hlock hexec =>
      exact hs.ran (congrArg List.length (keepsObjects_configure hexec).states)
  | prepare t | call t | unmarked t => exact hs.leave rfl
  | ensure t key next answers r w hpc hexec =>
      have hstates := (keepsObjects_ensureStarpuRuntime hexec).states
      refine (hs.ran (congrArg List.length hstates)).leave ?_
      rcases r with _ | _
      · rfl
      · rcases key with _ | _
        · exact ensured_token next
        · rfl
  | bind t key next answers r w hpc hlock hexec =>
      refine (hs.ran (congrArg List.length (keepsObjects_bindEvalKey hexec).states)).leave ?_
      rcases r with _ | _
      · rfl
      · exact ensured_token next
  | handleFor t call handles access handle w hpc haccess hexec =>
      refine (hs.ran ?_).leave rfl
      rw [exec_handleFor] at hexec
      cases hfind : s.world.find access.place with
      | some found =>
          rw [hfind] at hexec
          obtain ⟨-, rfl⟩ := Prod.mk.inj hexec
          rfl
      | none =>
          rw [hfind] at hexec
          obtain ⟨-, rfl⟩ := Prod.mk.inj hexec
          exact congrArg List.length (states_register s.world access.place access.registerCall)
  | insert t call handles answers task w hpc hall hclean hexec =>
      rw [exec_insertTask] at hexec
      by_cases hinsert : answers.insert = 0
      · rw [if_pos hinsert] at hexec
        obtain ⟨htask, rfl⟩ := Prod.mk.inj hexec
        obtain rfl : s.world.states.length = task := Except.ok.inj htask
        exact hs.accepted (by simp [World.addTask, World.call])
      · rw [if_neg hinsert] at hexec
        exact absurd (Prod.mk.inj hexec).1 (by simp)
  | refuse t call handles answers text w hpc hall hexec =>
      refine (hs.ran ?_).leave rfl
      rw [exec_insertTask] at hexec
      by_cases hinsert : answers.insert = 0
      · rw [if_pos hinsert] at hexec
        exact absurd (Prod.mk.inj hexec).1 (by simp)
      · rw [if_neg hinsert] at hexec
        obtain ⟨-, rfl⟩ := Prod.mk.inj hexec
        rfl
  | completed task w hfinished hexec =>
      obtain ⟨-, rfl⟩ := Prod.mk.inj ((exec_taskCompleted task s.world).symm.trans hexec)
      exact hs.ran (by simp [World.complete])
  | waited t task state hpc hstate hfinished => exact hask t task state hstate
  | synchronizeOutput t task state hpc hstate => exact hask t task state hstate
  | acquired t task count state hpc hstate hclean hacquired =>
      have hleft := System.Tokens.leave (s := s.called (.dataRelease state.output))
        ⟨hs.pcs, hs.captured⟩ (t := t) idle_token
      exact ⟨hleft.pcs, hleft.captured⟩
  | failed t task count error hpc herror =>
      have hleft := hs.leave (t := t) idle_token
      have hlength : (s.world.fail task error).states.length = s.world.states.length := by
        simp [World.fail]
      exact ⟨fun u task' h => Nat.lt_of_lt_of_eq (hleft.pcs u task' h) hlength.symm,
        fun u task' h => Nat.lt_of_lt_of_eq (hleft.captured u task' h) hlength.symm⟩
  | beginCapture t capture hpc hcapture =>
      have hidle : ({ capture := capture } : Thread Key).pc.token = none := rfl
      refine hs.replace hidle fun task h => ?_
      unfold beginIyokanStarpuCapture at hcapture
      split_ifs at hcapture
      obtain rfl := Except.ok.inj hcapture
      exact absurd h (by simp)
  | endCapture t token capture hpc hcapture =>
      have hidle : ({ capture := capture } : Thread Key).pc.token = none := rfl
      have hreplaced := hs.replace (t := t) hidle fun task h => by
        unfold endIyokanStarpuCapture at hcapture
        split_ifs at hcapture
        obtain ⟨-, rfl⟩ := Prod.mk.inj (Except.ok.inj hcapture)
        exact absurd h (by simp)
      exact ⟨hreplaced.pcs, hreplaced.captured⟩
  | synchronizeCapture t task hpc hcapture =>
      refine hs.goto fun task' h => ?_
      unfold synchronizeIyokanStarpuCapture at hcapture
      split_ifs at hcapture
      exact hs.captured t task' (h ▸ Except.ok.inj hcapture)
  | hostWrite t place v hpc hidle => exact ⟨hs.pcs, hs.captured⟩
  | mark t place handle hpc hfind =>
      exact System.Tokens.leave (s := s.called _) ⟨hs.pcs, hs.captured⟩ rfl
  | marked t place handle count hpc hacquired =>
      have hleft := System.Tokens.leave (s := s.called (.dataRelease handle))
        ⟨hs.pcs, hs.captured⟩ (t := t) idle_token
      exact ⟨hleft.pcs, hleft.captured⟩
  | markUnregistered t place hpc hfind => exact ⟨hs.pcs, hs.captured⟩
  | work r hstep hrunning hmain => exact ⟨hs.pcs, hs.captured⟩

theorem System.Tokens.lifeStep (hs : s.Tokens) (h : LifeStep tfhe main useCufhepp s s') :
    s'.Tokens := by
  cases h with
  | step _ hstep => exact hs.step hstep
  | shutdown t => exact hs.leave rfl
  | shutDown t w hpc hexec hwait =>
      have hstates : w.states.length = s.world.states.length := by
        rw [eq_of_shutdown hexec]
        split_ifs
        · exact congrArg List.length (states_shutdown s.world useCufhepp)
        · rfl
      have hran : (s.ran tfhe main w).Tokens := hs.ran hstates
      exact System.Tokens.leave (s := { s.ran tfhe main w with memory := s.hostValue main })
        ⟨hran.pcs, hran.captured⟩ idle_token

theorem tokens_run (hrun : Relation.ReflTransGen (LifeStep tfhe main useCufhepp)
    (System.start main σ) s) : s.Tokens := by
  induction hrun with
  | refl => exact ⟨fun t task h => absurd h (by simp [System.start, Pc.token]),
      fun t task h => absurd h (by simp [System.start])⟩
  | tail _ hstep ih => exact ih.lifeStep hstep

/-- The invariant of the threads outlives the shutdowns that find StarPU down. -/
theorem inv_run (hrun : Relation.ReflTransGen (LifeStep tfhe main useCufhepp)
    (System.start main σ) s) (hup : .starpuShutdown ∉ s.world.calls) :
    s.Inv tfhe main useCufhepp σ := by
  induction hrun with
  | refl => exact inv_start σ
  | @tail a b hrun hstep ih =>
      have hbefore : .starpuShutdown ∉ a.world.calls := fun hmem => hup (hstep.calls.subset hmem)
      have hregistered := registered_run hrun hbefore
      rcases hregistered.objects hstep hup with hstep' | hsame
      · exact (ih hbefore).step hstep'
      · exact ⟨(ih hbefore).keys.lifeStep hstep, (hregistered.lifeStep hstep hup).linked,
          hsame ▸ (ih hbefore).objects⟩

/-! ### A thread that waits -/

/-- The handle is of an object the host is writing. -/
def System.Written (s : System Tid Key N V) (handle : Handle) : Prop :=
  ∃ place ∈ s.dirty, s.world.find place = some handle

/-- The workers go on, and leave alone what the host is writing. -/
theorem steps_spares (hrunning : s.world.starpuRunning = true) {r : Runtime Handle N V}
    (hrun : Relation.ReflTransGen (Runtime.Spares s.Written) s.runtime r) :
    Relation.ReflTransGen (Step tfhe main useCufhepp) s { s with runtime := r } := by
  induction hrun with
  | refl => exact .refl
  | tail _ hstep ih =>
      refine ih.tail (.work _ _ hstep.1 hrunning fun place hdirty handle hfind => ?_)
      exact congrFun (hstep.2 handle ⟨place, hdirty, hfind⟩) main

/-- The callback of a finished task runs. -/
theorem step_callback {task : IyokanStarpuTask} (hfinished : task ∈ s.runtime.finished) :
    Step tfhe main useCufhepp s { s with world := s.world.complete task } := by
  have hran : s.ran tfhe main (s.world.complete task)
      = { s with world := s.world.complete task } := by
    simp [System.ran, World.complete]
  exact hran ▸ .completed s task _ hfinished (exec_taskCompleted task s.world)

/-- Once all tasks have finished a reader is let in. -/
theorem exists_acquired (hrunning : s.world.starpuRunning = true) (hheld : s.runtime.Held)
    (hall : ∀ i < s.runtime.tasks.length, i ∈ s.runtime.finished) {t : Tid}
    {task : IyokanStarpuTask} {state : TaskState}
    (hpc : (s.threads t).pc = .acquiring task s.runtime.tasks.length)
    (hstate : s.world.states[task]? = some state) (hclean : ¬ s.Written state.output) :
    ∃ s', Relation.ReflTransGen (Step tfhe main useCufhepp) s s' ∧
      (s'.threads t).pc = .idle ∧ (∀ u, u ≠ t → s'.threads u = s.threads u) ∧
      s'.submitted = s.submitted ∧ task ∈ s'.synchronized := by
  obtain ⟨r, hrun, hvalid, htasks, -, hfinished⟩ :=
    hheld.gather (P := s.Written) main [state.output] (by simpa using hclean)
  have hacquired : r.ReadAcquired main state.output s.runtime.tasks.length := by
    refine ⟨fun j u hu _ hj => hfinished ▸ hall j hj, fun j u hu _ hj => ?_, ?_⟩
    · exact absurd (List.getElem?_eq_some_iff.mp (htasks ▸ hu)).1 (Nat.not_lt.mpr hj)
    · exact hvalid _ (List.mem_singleton_self _)
  have hlast : Step tfhe main useCufhepp { s with runtime := r } _ :=
    .acquired _ t task s.runtime.tasks.length state hpc hstate
      (fun place hdirty hfind => hclean ⟨place, hdirty, hfind⟩) hacquired
  refine ⟨_, (steps_spares hrunning hrun).tail hlast, ?_, fun u hu => ?_, rfl,
    List.mem_cons_self⟩
  · simp [System.goto]
  · simp [System.goto, System.called, Function.update_of_ne hu]

/-- **Until StarPU is shut down a thread that waits for its task can return**, if no object is
written that is the output: the workers and the callbacks are all it needs, wherever the other
threads are, also about to shut StarPU down. -/
theorem exists_returned (hrun : Relation.ReflTransGen (LifeStep tfhe main useCufhepp)
    (System.start main σ) s) (hup : .starpuShutdown ∉ s.world.calls) {t : Tid}
    {task : IyokanStarpuTask} (hpc : (s.threads t).pc = .waiting task)
    (hclean : ∀ call, s.submitted[task]? = some call → call.output ∉ s.dirty) :
    ∃ s', Relation.ReflTransGen (Step tfhe main useCufhepp) s s' ∧
      (s'.threads t).pc = .idle ∧ (∀ u, u ≠ t → s'.threads u = s.threads u) ∧
      s'.submitted = s.submitted ∧ (task ∈ s'.synchronized ∨
        ∃ state, s.world.states[task]? = some state ∧ state.error ≠ 0) := by
  have hi := inv_run hrun hup
  have hn := hi.objects.names
  have hm := hi.objects.memory
  -- The task was accepted, so StarPU is running.
  have hlt : task < s.world.states.length := (tokens_run hrun).pcs t task (by rw [hpc]; rfl)
  obtain ⟨state, hstate⟩ : ∃ state, s.world.states[task]? = some state :=
    ⟨_, List.getElem?_eq_getElem hlt⟩
  obtain ⟨call, hcall, hfind⟩ := hi.linked.call hstate
  have hrunning : s.world.starpuRunning = true :=
    (registered_run hrun hup).up.submitted (List.ne_nil_of_mem (List.mem_of_getElem? hcall))
  -- No unfinished task opens what the host is writing.
  have hspared : ∀ i u, s.runtime.tasks[i]? = some u → i ∉ s.runtime.finished →
      ∀ handle ∈ u.handles, ¬ s.Written handle := by
    rintro i u hu hnot handle hhandle ⟨place, hdirty, hplace⟩
    obtain ⟨other, hother, hopens⟩ := hn.opens hu hplace hhandle
    exact hnot (hm.idle place hdirty i other hother hopens)
  have hheld : s.runtime.Held := fun handle => hm.someValid handle
  obtain ⟨r, hwork, htasks, hall⟩ := hheld.exists_finished main hspared
  have hfinished : task ∈ r.finished := by
    refine hall task ?_
    have hlength : s.submitted.length = s.runtime.tasks.length := hn.length
    rwa [htasks, ← hlength, hi.linked.length]
  have hcompleted : (s.world.complete task).states[task]?
      = some { state with finished := true } := by
    simp [World.complete, hstate]
  set s₂ : System Tid Key N V := { s with runtime := r, world := s.world.complete task } with hs₂
  have hs₂run : Relation.ReflTransGen (Step tfhe main useCufhepp) s s₂ :=
    (steps_spares hrunning hwork).tail (step_callback hfinished)
  have hwaited : Step tfhe main useCufhepp s₂ (s₂.ask t task { state with finished := true }) :=
    .waited s₂ t task _ hpc hcompleted rfl
  by_cases herror : state.error = 0
  · have hask : s₂.ask t task { state with finished := true } = (s₂.called (.dataAcquire
        state.output .R)).goto t (.acquiring task r.tasks.length) := if_pos herror
    rw [hask] at hwaited
    set s₃ := (s₂.called (.dataAcquire state.output .R)).goto t (.acquiring task r.tasks.length)
    have hwritten : ¬ s₃.Written state.output := by
      rintro ⟨place, hdirty, hplace⟩
      exact hclean call hcall (hn.unshared _ _ _ hfind hplace ▸ hdirty)
    have hpc₃ : (s₃.threads t).pc = .acquiring task s₃.runtime.tasks.length := by
      simp [s₃, System.goto, System.called, s₂]
    obtain ⟨s', hrest, hidle, hothers, hsubmitted, hsync⟩ :
        ∃ s', Relation.ReflTransGen (Step tfhe main useCufhepp) s₃ s' ∧ _ :=
      exists_acquired (s := s₃) hrunning (hheld.run hwork) hall hpc₃ hcompleted hwritten
    exact ⟨s', (hs₂run.tail hwaited).trans hrest, hidle,
      fun u hu => (hothers u hu).trans (Function.update_of_ne hu _ _), hsubmitted, Or.inl hsync⟩
  · have hask : s₂.ask t task { state with finished := true } = s₂.goto t .idle := if_neg herror
    rw [hask] at hwaited
    exact ⟨_, hs₂run.tail hwaited, by simp [System.goto],
      fun u hu => Function.update_of_ne hu _ _, rfl, Or.inr ⟨state, hstate, herror⟩⟩

end Steps

/-- One thread waits for its inverter, the other one is about to shut StarPU down. -/
theorem exists_returned_beside : ∃ s s' : System Bool Unit Unit Bool,
    (s.threads false).pc = .waiting 0 ∧ (s.threads true).pc = .shuttingDown ∧
      Relation.ReflTransGen (Step clearTFHE () false) s s' ∧ (s'.threads false).pc = .idle ∧
      s'.threads true = s.threads true ∧ 0 ∈ s'.synchronized := by
  have hrun : ∃ s : System Bool Unit Unit Bool,
      Relation.ReflTransGen (LifeStep clearTFHE () false) (System.start () fun _ => true) s ∧
        (s.threads false).pc = .waiting 0 ∧ (s.threads true).pc = .shuttingDown ∧ s.dirty = [] ∧
        s.world.states = [{ output := 0 }] ∧ .starpuShutdown ∉ s.world.calls := by
    refine reach_head (.step _ _ (.call _ false (.not 1 0) rfl)) ?_
    refine reach_head (.step _ _ (.ensure _ false none (some _) {} (.ok ⟨⟩) _ rfl rfl)) ?_
    refine reach_head (.step _ _ (.handleFor _ false _ _ ⟨.W, .tlwe, 1⟩ 0 _ rfl rfl rfl)) ?_
    refine reach_head (.step _ _ (.handleFor _ false _ _ ⟨.R, .tlwe, 0⟩ 1 _ rfl rfl rfl)) ?_
    refine reach_head (.step _ _ (.insert _ false _ _ {} 0 _ rfl rfl
      (fun _ _ => List.not_mem_nil) rfl)) ?_
    refine reach_head (.shutdown _ true rfl (fun u => ?_) (fun u => ?_)) ?_
    · cases u <;> exact id
    · cases u
      · exact (nofun : (Pc.waiting 0 : Pc Unit) ≠ .shuttingDown)
      · exact (nofun : (Pc.idle : Pc Unit) ≠ .shuttingDown)
    exact ⟨_, .refl, rfl, rfl, rfl, rfl, by decide⟩
  obtain ⟨s, hreach, hwaiting, hother, hdirty, hstates, hup⟩ := hrun
  obtain ⟨s', hrest, hidle, hothers, -, hsync⟩ := exists_returned hreach hup hwaiting
    fun call _ => by simp [hdirty]
  refine ⟨s, s', hwaiting, hother, hrest, hidle, hothers true (by decide), ?_⟩
  refine hsync.resolve_right fun herror => ?_
  obtain ⟨state, hstate, hne⟩ := herror
  rw [hstates] at hstate
  obtain rfl := Option.some.inj hstate
  exact hne rfl

end Tangor.Iyokan
