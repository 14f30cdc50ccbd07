/-
The threads refine the machine of the objects.

Most of what a thread does is invisible to the objects: it looks something up, takes a
lock, waits.  `Step.objects` says so step by step: the objects stay as they are, or one
thing happens to them that `Objects.Step` allows.  For that a thread has to know what it
holds: in a `submit` function the handles found so far are those of the operands, and a
token leads to the handle of the output of its call.  This is `Linked`.
-/
import Tangor.Proofs.Memory

namespace Tangor.Iyokan

open Throwing TaskGraph

variable {Tid Key N V : Type}

/-! ### Parts of the backend no object sees -/

/-- StarPU gets a new handle or a new task. -/
def LibraryCall.Changes : LibraryCall Key → Bool
  | .vectorDataRegister _ _ | .variableDataRegister _ _ _ => true
  | call => call.Submits

/-- A handle is found in the two registries. -/
theorem World.find_congr {w w' : World Key} (h : w'.persistentHandles = w.persistentHandles)
    (hvariable : w'.persistentVariableHandles = w.persistentVariableHandles) :
    w'.find = w.find := by
  funext place
  obtain ⟨registry, address⟩ := place
  cases registry <;> simp only [World.find, h, hvariable]

/-- The registries, the tokens and StarPU are as they were. -/
structure World.KeepsObjects (w w' : World Key) : Prop where
  find : w'.find = w.find
  nextHandle : w'.nextHandle = w.nextHandle
  states : w'.states = w.states
  calls : ∃ calls, w'.calls = w.calls ++ calls ∧ ∀ call ∈ calls, call.Changes = false

theorem keepsObjects_refl (w : World Key) : w.KeepsObjects w :=
  ⟨rfl, rfl, rfl, [], by simp, by simp⟩

theorem keepsObjects_call (w : World Key) {call : LibraryCall Key} (h : call.Changes = false) :
    w.KeepsObjects (w.call call) := by
  exact ⟨World.find_congr rfl rfl, rfl, rfl, [call], rfl, by simpa using h⟩

theorem keepsObjects_configure {cpuWorkers cudaDevices : Nat} {w w' : World Key}
    {r : Except String PUnit}
    (h : (configureIyokanStarpu cpuWorkers cudaDevices).exec w = (r, w')) :
    w.KeepsObjects w' := by
  by_cases hactive : w.starpuRunning = true ∨ w.starpuInitStatus ≠ -1
  · simp [configureIyokanStarpu, hactive] at h
    rw [← h.2]
    exact keepsObjects_refl w
  · simp [configureIyokanStarpu, hactive] at h
    rw [← h.2]
    exact ⟨World.find_congr rfl rfl, rfl, rfl, [], by simp, by simp⟩

theorem keepsObjects_ensureStarpuRuntime {answers : Answers} {w w' : World Key}
    {r : Except String PUnit} (h : (ensureStarpuRuntime answers).exec w = (r, w')) :
    w.KeepsObjects w' := by
  rw [exec_ensureStarpuRuntime] at h
  obtain ⟨-, rfl⟩ := Prod.mk.injEq .. ▸ h
  cases w.starpuInitOnce with
  | true => exact keepsObjects_refl w
  | false =>
      refine ⟨World.find_congr rfl rfl, rfl, rfl, _, rfl, ?_⟩
      intro call hcall
      by_cases hinit : answers.init = 0
      · rw [if_pos hinit] at hcall
        rcases List.mem_cons.mp hcall with rfl | hcall
        · rfl
        · rw [List.mem_singleton.mp hcall]
          rfl
      · rw [if_neg hinit] at hcall
        rw [List.mem_singleton.mp hcall]
        rfl

theorem keepsObjects_bindEvalKey [DecidableEq Key] {useCufhepp : Bool} {answers : Answers}
    {key : Key} {w w' : World Key} {r : Except String PUnit}
    (h : (bindEvalKey useCufhepp answers key).exec w = (r, w')) : w.KeepsObjects w' := by
  by_cases haccepts : w.Accepts key
  · rw [exec_bindEvalKey_accepted useCufhepp answers haccepts] at h
    obtain ⟨-, rfl⟩ := Prod.mk.injEq .. ▸ h
    have hcalls : ∃ calls, (w.bind useCufhepp answers key).calls = w.calls ++ calls ∧
        ∀ call ∈ calls, call.Changes = false := by
      rcases bind_cases w useCufhepp answers key with h | h | ⟨-, h⟩ <;> rw [h]
      · exact ⟨[], by simp, by simp⟩
      · exact ⟨[.cudaWorkerGetCount], rfl, by simp [LibraryCall.Changes, LibraryCall.Submits]⟩
      · exact ⟨[.cudaWorkerGetCount, .cufheInitialize key, .atexit .cleanupIyokanCufhepp],
          by simp [World.call], by simp [LibraryCall.Changes, LibraryCall.Submits]⟩
    refine ⟨?_, ?_, ?_, hcalls⟩
    · rcases bind_cases w useCufhepp answers key with h | h | ⟨-, h⟩ <;> rw [h] <;>
        exact World.find_congr rfl rfl
    all_goals rcases bind_cases w useCufhepp answers key with h | h | ⟨-, h⟩ <;> rw [h] <;> rfl
  · rw [exec_bindEvalKey_rejected useCufhepp answers haccepts] at h
    obtain ⟨-, rfl⟩ := Prod.mk.injEq .. ▸ h
    exact keepsObjects_refl w

theorem find_complete (w : World Key) (task : IyokanStarpuTask) :
    (w.complete task).find = w.find := World.find_congr rfl rfl

theorem find_fail (w : World Key) (task : IyokanStarpuTask) (error : Int) :
    (w.fail task error).find = w.find := World.find_congr rfl rfl

/-! ### What the threads know -/

/-- What a thread knows of the handles where it is. -/
def Pc.Linked (find : Place → Option Handle) : Pc Key → Prop
  | .submitting call handles => List.Forall₂ (fun access handle => find access.place = some handle)
      (call.submission.accesses.take handles.length) handles
  | .acquiring task count => task < count
  | .marking place handle _ => find place = some handle
  | _ => True

/-- Threads and tokens hold the handles of the objects. -/
structure System.Linked (s : System Tid Key N V) : Prop where
  outputs : List.Forall₂ (fun call output => s.world.find call.output = some output)
    s.submitted (s.world.states.map TaskState.output)
  finished : ∀ i state, s.world.states[i]? = some state → state.finished = true →
    i ∈ s.runtime.finished
  pcs : ∀ t, (s.threads t).pc.Linked s.world.find

theorem Pc.Linked.mono {find find' : Place → Option Handle} {pc : Pc Key} (h : pc.Linked find)
    (hmono : ∀ place handle, find place = some handle → find' place = some handle) :
    pc.Linked find' := by
  cases pc with
  | submitting call handles =>
      simp only [Pc.Linked] at h ⊢
      exact h.imp fun (access : Access) handle => hmono access.place handle
  | acquiring => exact h
  | marking place handle count => exact hmono place handle h
  | _ => trivial

namespace System.Linked

variable {s : System Tid Key N V}

theorem length (hs : s.Linked) : s.submitted.length = s.world.states.length := by
  have := hs.outputs.length_eq
  rwa [List.length_map] at this

/-- A token is of a call, and has the handle of its output. -/
theorem call (hs : s.Linked) {task : IyokanStarpuTask} {state : TaskState}
    (hstate : s.world.states[task]? = some state) :
    ∃ call, s.submitted[task]? = some call ∧ s.world.find call.output = some state.output :=
  Fallible.forall₂_getElem?_right hs.outputs (by rw [List.getElem?_map, hstate, Option.map_some])

end System.Linked

/-- A thread moves on with what it knows, and nothing else changes. -/
theorem System.Linked.goto [DecidableEq Tid] {s : System Tid Key N V} (hs : s.Linked) {t : Tid}
    {pc : Pc Key}
    (hpc : pc.Linked s.world.find) : (s.goto t pc).Linked where
  outputs := hs.outputs
  finished := hs.finished
  pcs := by
    intro u
    rw [threads_goto]
    split_ifs
    · exact hpc
    · exact hs.pcs u

section Refinement

variable [DecidableEq N] [Inhabited V] {tfhe : TFHE Key V} {main : N}

theorem serve_quiet (memory : Place → V) (currentEvalKey : Option Key)
    (r : Runtime Handle N V) {call : LibraryCall Key} (h : call.Changes = false) :
    serve tfhe main memory currentEvalKey r call = r := by
  cases call with
  | vectorDataRegister | variableDataRegister => exact absurd h (by simp [LibraryCall.Changes])
  | taskInsert codelet buffers status =>
      rcases buffers with _ | ⟨⟨mode, target⟩, sources⟩
      · rfl
      · have hstatus : status ≠ 0 := by
          simpa [LibraryCall.Changes, LibraryCall.Submits] using h
        simp [serve, hstatus]
  | _ => rfl

theorem foldl_serve_quiet (memory : Place → V) (currentEvalKey : Option Key)
    (r : Runtime Handle N V) {calls : List (LibraryCall Key)}
    (h : ∀ call ∈ calls, call.Changes = false) :
    calls.foldl (serve tfhe main memory currentEvalKey) r = r := by
  induction calls with
  | nil => rfl
  | cons call rest ih =>
      rw [List.foldl_cons, serve_quiet memory currentEvalKey r (h call List.mem_cons_self)]
      exact ih fun c hc => h c (List.mem_cons_of_mem _ hc)

theorem ran_runtime (s : System Tid Key N V) {w : World Key} (h : s.world.KeepsObjects w) :
    (s.ran tfhe main w).runtime = s.runtime := by
  obtain ⟨calls, hcalls, hquiet⟩ := h.calls
  unfold System.ran
  rw [hcalls, List.drop_left]
  exact foldl_serve_quiet s.memory w.currentEvalKey s.runtime hquiet

theorem ran_objects (s : System Tid Key N V) {w : World Key} (h : s.world.KeepsObjects w) :
    (s.ran tfhe main w).objects = s.objects := by
  have hruntime : (s.ran tfhe main w).runtime = s.runtime := ran_runtime s h
  simp only [System.objects, hruntime]
  simp only [System.ran, h.find, h.nextHandle]

/-- A part of the backend runs that adds at most handles. -/
theorem System.Linked.ran {s : System Tid Key N V} (hs : s.Linked) {w : World Key}
    (hstates : w.states = s.world.states)
    (hmono : ∀ place handle, s.world.find place = some handle → w.find place = some handle) :
    (s.ran tfhe main w).Linked where
  outputs := by
    show List.Forall₂ (fun call output => w.find call.output = some output) s.submitted
      (w.states.map TaskState.output)
    rw [hstates]
    exact hs.outputs.imp fun (call : GateCall Key) output => hmono call.output output
  finished := by
    intro i state hstate hfinished
    unfold System.ran
    rw [foldl_serve_finished]
    exact hs.finished i state (hstates ▸ hstate) hfinished
  pcs := fun t => (hs.pcs t).mono hmono

/-! ### The steps that objects see -/

/-- Registering an operand is serving its object. -/
theorem registered_objects (s : System Tid Key N V) (access : Access) :
    (s.ran tfhe main (s.world.register access.place access.registerCall)).objects
      = s.objects.register main access.place := by
  have hfind : (s.world.register access.place access.registerCall).find
      = Function.update s.world.find access.place (some s.world.nextHandle) := by
    funext place
    rw [find_register, Function.update_apply]
  have hnext : (s.world.register access.place access.registerCall).nextHandle
      = s.world.nextHandle + 1 := rfl
  have hruntime : (s.ran tfhe main (s.world.register access.place access.registerCall)).runtime
      = s.runtime.register main s.world.nextHandle (s.memory access.place) := by
    have hcalls : (s.world.register access.place access.registerCall).calls
        = s.world.calls ++ [access.registerCall s.world.nextHandle] := by
      rcases access with ⟨mode, _ | _ | _, address⟩ <;> rfl
    unfold System.ran
    rw [hcalls, List.drop_left]
    rcases access with ⟨mode, _ | _ | _, address⟩ <;> rfl
  simp only [System.objects, Objects.register, hruntime]
  simp only [System.ran, hfind, hnext]

/-- The task StarPU gets is the one over the operands' handles. -/
theorem serve_insertCall (main : N) (memory : Place → V) {currentEvalKey : Option Key}
    (r : Runtime Handle N V) {call : GateCall Key} {target : Handle} {sources : List Handle}
    (hlength : sources.length = call.submission.inputs.length)
    (hkey : ∀ key, call.evalKey = some key → currentEvalKey = some key) :
    serve tfhe main memory currentEvalKey r
        (call.submission.insertCall (target :: sources) 0)
      = r.submit (Objects.taskOver tfhe call target sources) := by
  have hsources : ((call.submission.inputs.map Access.mode).zip sources).map Prod.snd = sources :=
    List.map_snd_zip (by simp [hlength])
  simp only [Submission.insertCall, Submission.accesses, List.map_cons, List.zip_cons_cons, serve,
    if_pos, insertedTask, Objects.taskOver, hsources, run_congr tfhe call hkey]

/-- One more operand has its handle. -/
theorem Pc.Linked.next {find : Place → Option Handle} {call : GateCall Key}
    {handles : List Handle} (h : (Pc.submitting call handles).Linked find) {access : Access}
    {handle : Handle} (haccess : call.submission.accesses[handles.length]? = some access)
    (hfind : find access.place = some handle) :
    (Pc.submitting call (handles ++ [handle])).Linked find := by
  simp only [Pc.Linked] at h ⊢
  rw [List.length_append, List.length_singleton, List.take_add_one, haccess]
  exact List.rel_append h (.cons hfind .nil)

/-- All operands have their handles. -/
theorem Pc.Linked.all {find : Place → Option Handle} {call : GateCall Key}
    {handles : List Handle} (h : (Pc.submitting call handles).Linked find)
    (hall : handles.length = call.submission.accesses.length) :
    ∃ target sources, handles = target :: sources ∧ find call.output = some target ∧
      List.Forall₂ (fun access handle => find access.place = some handle)
        call.submission.inputs sources := by
  simp only [Pc.Linked] at h
  rw [hall, List.take_length] at h
  cases h with
  | cons htarget hsources => exact ⟨_, _, rfl, htarget, hsources⟩

variable (tfhe main) in
/-- The task is submitted, and its token is the next. -/
theorem accepted_objects [DecidableEq Tid] {s : System Tid Key N V} (hl : s.Linked) (t : Tid)
    {call : GateCall Key} {target : Handle} {sources : List Handle}
    (htarget : s.world.find call.output = some target)
    (hlength : sources.length = call.submission.inputs.length)
    (hkey : ∀ key, call.evalKey = some key → s.world.currentEvalKey = some key)
    (task : IyokanStarpuTask) :
    let w := (s.world.call (call.submission.insertCall (target :: sources) 0)).addTask target
    ((s.ran tfhe main w).accepted t call task).objects = { s.objects with
      runtime := s.runtime.submit (Objects.taskOver tfhe call target sources)
      submitted := s.submitted ++ [call] } ∧ ((s.ran tfhe main w).accepted t call task).Linked := by
  intro w
  have hfind : w.find = s.world.find := World.find_congr rfl rfl
  have hruntime : (s.ran tfhe main w).runtime
      = s.runtime.submit (Objects.taskOver tfhe call target sources) := by
    have hcalls : w.calls = s.world.calls ++
        [call.submission.insertCall (target :: sources) 0] := rfl
    unfold System.ran
    rw [hcalls, List.drop_left, List.foldl_cons, List.foldl_nil]
    exact serve_insertCall main s.memory s.runtime hlength hkey
  refine ⟨?_, ?_, ?_, ?_⟩
  · simp only [System.objects, System.accepted, hruntime]
    simp only [System.ran, hfind]
    rfl
  · show List.Forall₂ (fun call output => w.find call.output = some output)
      (s.submitted ++ [call]) ((s.world.states ++ [_]).map TaskState.output)
    rw [hfind, List.map_append]
    exact List.rel_append hl.outputs (.cons htarget .nil)
  · intro i state hstate hfinished
    show i ∈ (s.ran tfhe main w).runtime.finished
    rw [hruntime]
    rcases getElem?_append_singleton hstate with hold | ⟨-, rfl⟩
    · exact hl.finished i state hold hfinished
    · exact absurd hfinished (by simp)
  · intro u
    show (((s.ran tfhe main w).accepted t call task).threads u).pc.Linked w.find
    rw [hfind]
    by_cases hut : u = t
    · subst hut
      by_cases hcapture : (s.threads u).capture.captureActive = true <;>
        simp [System.accepted, System.ran, hcapture, Pc.Linked]
    · simpa [System.accepted, System.ran, hut] using hl.pcs u

theorem states_register (w : World Key) (place : Place) (register : Handle → LibraryCall Key) :
    (w.register place register).states = w.states := by
  rcases place with ⟨_ | _, address⟩ <;> rfl

theorem map_output_modify (states : List TaskState) (task : Nat) {f : TaskState → TaskState}
    (h : ∀ state, (f state).output = state.output) :
    (states.modify task f).map TaskState.output = states.map TaskState.output := by
  refine List.ext_getElem? fun i => ?_
  rw [List.getElem?_map, List.getElem?_map, List.getElem?_modify]
  cases states[i]? with
  | none => rfl
  | some state =>
      show some _ = some _
      split_ifs
      · exact congrArg some (h state)
      · rfl

theorem outputs_complete (w : World Key) (task : IyokanStarpuTask) :
    (w.complete task).states.map TaskState.output = w.states.map TaskState.output :=
  map_output_modify w.states task fun _ => rfl

theorem outputs_fail (w : World Key) (task : IyokanStarpuTask) (error : Int) :
    (w.fail task error).states.map TaskState.output = w.states.map TaskState.output :=
  map_output_modify w.states task fun _ => rfl

variable [DecidableEq Tid] [DecidableEq Key] {useCufhepp : Bool}

/-- **A step of the system leaves the objects alone or is a step of theirs.** -/
theorem Step.objects {s s' : System Tid Key N V} (hk : s.Keys useCufhepp) (hl : s.Linked)
    (h : Step tfhe main useCufhepp s s') :
    (s'.objects = s.objects ∨ Objects.Step tfhe main s.objects s'.objects) ∧ s'.Linked := by
  have hquiet : ∀ {w : World Key} {t : Tid} {pc : Pc Key}, s.world.KeepsObjects w →
      pc.Linked s.world.find →
      ((s.ran tfhe main w).goto t pc).objects = s.objects ∧
        ((s.ran tfhe main w).goto t pc).Linked := by
    intro w t pc hw hpc
    refine ⟨ran_objects s hw, (hl.ran hw.states fun place handle h => hw.find ▸ h).goto ?_⟩
    show pc.Linked w.find
    rwa [hw.find]
  have hensured : ∀ next : Option (GateCall Key), (Pc.ensured next).Linked s.world.find := by
    intro next
    cases next with
    | none => trivial
    | some call => exact .nil
  have hcalled : ∀ call : LibraryCall Key, call.Changes = false →
      (s.called call).objects = s.objects ∧ (s.called call).Linked := by
    intro call hcall
    have hw := keepsObjects_call s.world hcall
    refine ⟨by simp only [System.objects, System.called]; rw [← hw.find]; rfl, ?_⟩
    exact ⟨by have := hl.outputs; rwa [← hw.find] at this, hl.finished,
      by have := hl.pcs; rwa [← hw.find] at this⟩
  have hask : ∀ (t : Tid) (task : IyokanStarpuTask) (state : TaskState),
      s.world.states[task]? = some state →
      (s.ask t task state).objects = s.objects ∧ (s.ask t task state).Linked := by
    intro t task state hstate
    unfold System.ask
    split_ifs
    · obtain ⟨hobjects, hlinked⟩ := hcalled (.dataAcquire state.output .R) rfl
      refine ⟨hobjects, hlinked.goto ?_⟩
      show task < s.runtime.tasks.length
      rw [hk.length, hl.length]
      exact (List.getElem?_eq_some_iff.mp hstate).1
    · exact ⟨rfl, hl.goto trivial⟩
  cases h with
  | configure t cpuWorkers cudaDevices r w hpc hlock hexec =>
      have hw := keepsObjects_configure hexec
      exact ⟨Or.inl (ran_objects s hw), hl.ran hw.states fun place handle h => hw.find ▸ h⟩
  | prepare t key hpc => exact ⟨Or.inl rfl, hl.goto trivial⟩
  | call t call hpc => exact ⟨Or.inl rfl, hl.goto trivial⟩
  | ensure t key next answers r w hpc hexec =>
      have hw := keepsObjects_ensureStarpuRuntime hexec
      refine (hquiet hw ?_).imp_left Or.inl
      rcases r with text | ⟨⟩
      · trivial
      · cases key with
        | some key => trivial
        | none => exact hensured next
  | bind t key next answers r w hpc hlock hexec =>
      refine (hquiet (keepsObjects_bindEvalKey hexec) ?_).imp_left Or.inl
      rcases r with text | ⟨⟩
      · trivial
      · exact hensured next
  | handleFor t call handles access handle w hpc haccess hexec =>
      have hcall := hl.pcs t
      rw [hpc] at hcall
      rw [exec_handleFor] at hexec
      cases hfind : s.world.find access.place with
      | some found =>
          rw [hfind] at hexec
          injection hexec with hhandle hw
          injection hhandle with hhandle
          subst hhandle hw
          exact (hquiet (keepsObjects_refl s.world) (hcall.next haccess hfind)).imp_left Or.inl
      | none =>
          rw [hfind] at hexec
          injection hexec with hhandle hw
          injection hhandle with hhandle
          subst hhandle hw
          have hmono : ∀ place handle, s.world.find place = some handle →
              (s.world.register access.place access.registerCall).find place = some handle := by
            intro place handle hplace
            have hne : place ≠ access.place := by
              rintro rfl
              exact absurd (hfind.symm.trans hplace) (by simp)
            rwa [find_register, if_neg hne]
          refine ⟨Or.inr ?_, (hl.ran (states_register s.world _ _)
            hmono).goto ((hcall.mono hmono).next haccess ?_)⟩
          · show Objects.Step tfhe main s.objects
              (s.ran tfhe main (s.world.register access.place access.registerCall)).objects
            rw [registered_objects]
            exact .register s.objects access.place hfind
          · show (s.world.register access.place access.registerCall).find access.place = _
            rw [find_register, if_pos rfl]
  | insert t call handles answers task w hpc hall hclean hexec =>
      have hcall := hl.pcs t
      rw [hpc] at hcall
      obtain ⟨target, sources, rfl, htarget, hsources⟩ := hcall.all hall
      have hkey := hk.pcs t
      rw [hpc] at hkey
      rw [exec_insertTask] at hexec
      split_ifs at hexec with hinsert
      · obtain ⟨-, rfl⟩ := Prod.mk.injEq .. ▸ hexec
        rw [hinsert]
        obtain ⟨hobjects, hlinked⟩ := accepted_objects tfhe main hl t htarget
          hsources.length_eq.symm hkey task
        refine ⟨Or.inr ?_, hlinked⟩
        rw [show List.headD (target :: sources) 0 = target from rfl, hobjects]
        exact .submit s.objects call target sources htarget hsources hclean
      · exact absurd (Prod.mk.inj hexec).1 (by simp)
  | refuse t call handles answers text w hpc hall hexec =>
      rw [exec_insertTask] at hexec
      split_ifs at hexec with hinsert
      · exact absurd (Prod.mk.inj hexec).1 (by simp)
      · obtain ⟨-, rfl⟩ := Prod.mk.injEq .. ▸ hexec
        have hidle : Pc.Linked s.world.find (.idle : Pc Key) := trivial
        refine (hquiet (keepsObjects_call s.world ?_) hidle).imp_left Or.inl
        rw [← not_submits_insertCall call.submission handles hinsert]
        rfl
  | completed task w hfinished hexec =>
      rw [exec_taskCompleted] at hexec
      injection hexec with _ hw
      subst hw
      have hruntime : (s.ran tfhe main (s.world.complete task)).runtime = s.runtime := by
        simp [System.ran, World.complete]
      refine ⟨Or.inl ?_, ?_, ?_, ?_⟩
      · simp only [System.objects, hruntime]
        simp only [System.ran, find_complete]
        rfl
      · show List.Forall₂ (fun call output => (s.world.complete task).find call.output = some output)
          s.submitted ((s.world.complete task).states.map TaskState.output)
        rw [find_complete, outputs_complete]
        exact hl.outputs
      · intro i state hstate hdone
        rw [hruntime]
        by_cases hi : i = task
        · exact hi ▸ hfinished
        · refine hl.finished i state ?_ hdone
          rwa [← List.getElem?_modify_ne _ _ (Ne.symm hi)]
      · intro u
        show (s.threads u).pc.Linked (s.world.complete task).find
        rw [find_complete]
        exact hl.pcs u
  | waited t task state hpc hstate hfinished => exact (hask t task state hstate).imp_left Or.inl
  | synchronizeOutput t task state hpc hstate => exact (hask t task state hstate).imp_left Or.inl
  | acquired t task count state hpc hstate hclean hacquired =>
      obtain ⟨call, hcall, hfind⟩ := hl.call hstate
      have hcount := hl.pcs t
      rw [hpc] at hcount
      obtain ⟨hobjects, hlinked⟩ := hcalled (.dataRelease state.output) rfl
      have hgone : ((s.called (.dataRelease state.output)).goto t .idle).Linked :=
        hlinked.goto trivial
      refine ⟨Or.inr ?_, hgone.outputs, hgone.finished, hgone.pcs⟩
      have hsame : System.objects { (s.called (.dataRelease state.output)).goto t .idle with
          synchronized := task :: s.synchronized }
          = { s.objects with synchronized := task :: s.synchronized } := by
        rw [← hobjects]
        rfl
      rw [hsame]
      exact .acquire s.objects task call state.output count hcall hfind hcount
        (fun hdirty => hclean call.output hdirty hfind) hacquired
  | failed t task count error hpc herror =>
      have hfind := find_fail s.world task error
      have hgone : (s.goto t .idle).Linked := hl.goto trivial
      refine ⟨Or.inl ?_, ?_, ?_, ?_⟩
      · simp only [System.objects, System.goto]
        rw [← hfind]
        rfl
      · show List.Forall₂ (fun call output => (s.world.fail task error).find call.output
          = some output) s.submitted ((s.world.fail task error).states.map TaskState.output)
        rw [hfind, outputs_fail]
        exact hl.outputs
      · intro i state hstate hdone
        have hmodify : (s.world.states.modify task fun state =>
            { state with error := error })[i]? = some state := hstate
        rw [List.getElem?_modify] at hmodify
        cases hold : s.world.states[i]? with
        | none => simp [hold] at hmodify
        | some old =>
            rw [hold] at hmodify
            have hsame : old.finished = state.finished := by
              have heq := Option.some.inj hmodify
              split_ifs at heq <;> rw [← heq]
            exact hl.finished i old hold (hsame.trans hdone)
      · intro u
        show ((s.goto t .idle).threads u).pc.Linked (s.world.fail task error).find
        rw [hfind]
        exact hgone.pcs u
  | beginCapture t capture hpc hcapture =>
      refine ⟨Or.inl rfl, hl.outputs, hl.finished, fun u => ?_⟩
      by_cases hut : u = t
      · subst hut
        simp [Pc.Linked]
      · simpa [hut] using hl.pcs u
  | endCapture t token capture hpc hcapture =>
      refine ⟨Or.inl rfl, hl.outputs, hl.finished, fun u => ?_⟩
      by_cases hut : u = t
      · subst hut
        simp [Pc.Linked]
      · simpa [hut] using hl.pcs u
  | synchronizeCapture t task hpc hcapture => exact ⟨Or.inl rfl, hl.goto trivial⟩
  | hostWrite t place v hpc hidle =>
      refine ⟨Or.inr (.hostWrite s.objects place v hidle), hl.outputs, ?_, hl.pcs⟩
      have hfinished : (s.hostWrite main place v).runtime.finished = s.runtime.finished := by
        unfold System.hostWrite
        cases s.world.find place <;> rfl
      rw [hfinished]
      exact hl.finished
  | mark t place handle hpc hfind =>
      obtain ⟨hobjects, hlinked⟩ := hcalled (.dataAcquire handle .W) rfl
      exact ⟨Or.inl hobjects, hlinked.goto hfind⟩
  | marked t place handle count hpc hacquired =>
      have hfind := hl.pcs t
      rw [hpc] at hfind
      obtain ⟨hobjects, hlinked⟩ := hcalled (.dataRelease handle) rfl
      have hgone : ((s.called (.dataRelease handle)).goto t .idle).Linked := hlinked.goto trivial
      refine ⟨Or.inr ?_, hgone.outputs, hgone.finished, hgone.pcs⟩
      have hsame : System.objects { ((s.called (.dataRelease handle)).goto t .idle).marked place
          with runtime := s.runtime.overwrite handle main (s.runtime.copies handle main) }
          = s.objects.announce main place handle := by
        unfold Objects.announce
        rw [← hobjects]
        rfl
      rw [hsame]
      exact .announce s.objects place handle count hfind hacquired
  | unmarked t place handle count hpc => exact ⟨Or.inl rfl, hl.goto trivial⟩
  | markUnregistered t place hpc hfind =>
      exact ⟨Or.inr (.marked s.objects place hfind), hl.outputs, hl.finished, hl.pcs⟩
  | work r hstep hrunning hmain =>
      exact ⟨Or.inr (.work s.objects r hstep hmain), hl.outputs,
        fun i state hstate hdone => hstep.finished_subset (hl.finished i state hstate hdone), hl.pcs⟩

/-! ### Runs -/

/-- What holds in every run from the contents `σ`. -/
structure System.Inv (tfhe : TFHE Key V) (main : N) (useCufhepp : Bool) (σ : Place → V)
    (s : System Tid Key N V) : Prop where
  keys : s.Keys useCufhepp
  linked : s.Linked
  objects : s.objects.Inv tfhe main σ

omit [DecidableEq N] [DecidableEq Tid] [DecidableEq Key] in
theorem inv_start (σ : Place → V) :
    (System.start main σ : System Tid Key N V).Inv tfhe main useCufhepp σ where
  keys := keys_start useCufhepp main σ
  linked := ⟨.nil, fun i state hstate => absurd hstate (by simp [System.start]),
    fun _ => trivial⟩
  objects := by
    have hfind : ∀ place, (System.start main σ : System Tid Key N V).objects.find place = none := by
      rintro ⟨_ | _, address⟩ <;> rfl
    refine ⟨⟨?_, ?_, .nil⟩, ⟨⟨fun _ => none, ?_, ?_, ?_⟩, ?_, ?_⟩, ?_, ?_⟩
    · intro x y h hx
      exact absurd ((hfind x).symm.trans hx) (by simp)
    · intro x h hx
      exact absurd ((hfind x).symm.trans hx) (by simp)
    · exact fun h v hv => absurd hv (by simp)
    · exact (Runtime.ok_fresh main _).sound
    · refine fun _ => ⟨fun _ => default, Runtime.ok_fresh main _, fun x h hx => ?_⟩
      exact absurd ((hfind x).symm.trans hx) (by simp)
    · exact fun _ _ _ => rfl
    · exact fun x hx => absurd hx (by simp [System.objects, System.start])
    · exact fun x hx => absurd hx (by simp [System.objects, System.start])
    · exact fun x v k hx => absurd hx (by simp [System.objects, System.start])

variable {σ : Place → V}

theorem System.Inv.step {s s' : System Tid Key N V} (hs : s.Inv tfhe main useCufhepp σ)
    (h : Step tfhe main useCufhepp s s') : s'.Inv tfhe main useCufhepp σ := by
  obtain ⟨hobjects, hlinked⟩ := h.objects hs.keys hs.linked
  refine ⟨hs.keys.step h, hlinked, ?_⟩
  rcases hobjects with hsame | hstep
  · rw [hsame]
    exact hs.objects
  · exact hs.objects.step hstep

/-- The invariant holds in every state the system reaches. -/
theorem System.Inv.run {s s' : System Tid Key N V} (hs : s.Inv tfhe main useCufhepp σ)
    (h : Relation.ReflTransGen (Step tfhe main useCufhepp) s s') :
    s'.Inv tfhe main useCufhepp σ := by
  induction h with
  | refl => exact hs
  | tail _ hstep ih => exact ih.step hstep

/-- **However the calls are divided among threads and captures, a synchronised output holds
what executing the calls one at a time leaves there.** -/
theorem synchronized_value {s : System Tid Key N V}
    (hrun : Relation.ReflTransGen (Step tfhe main useCufhepp) (System.start main σ) s)
    (halias : ∀ call ∈ s.submitted, call.Unaliased)
    (hhost : ∀ place ∈ s.written, ∀ call ∈ s.submitted, place ∉ call.places)
    {task : IyokanStarpuTask} {call : GateCall Key} (htask : task ∈ s.synchronized)
    (hcall : s.submitted[task]? = some call)
    (hlast : ∀ j other, s.submitted[j]? = some other → task < j → other.output ≠ call.output) :
    s.hostValue main call.output = runCalls tfhe s.submitted σ call.output := by
  obtain ⟨-, -, hn, hm, hsync, -⟩ := (inv_start σ).run hrun
  obtain ⟨call', hcall', hfresh⟩ := hsync task htask
  rw [Option.some.inj (hcall'.symm.trans hcall)] at hfresh
  obtain ⟨handle, hfind⟩ := hfresh.found
  have hcur := hfresh.current hlast handle hfind
  obtain ⟨shadow, hs⟩ := hm.shadowed
  obtain ⟨ι, hok, hι⟩ := hs.exact ⟨halias, hhost⟩
  have hnone := hs.none hn.unshared hfind hfresh.clean
  -- The contents the run is exact from; they are `σ` on the objects of the calls.
  let τ : Place → V := fun place => (s.world.find place).elim (σ place) ι
  have hτ : ∀ place, place ∉ s.written → τ place = σ place := by
    intro place hplace
    cases hp : s.world.find place with
    | none => simp [τ, hp]
    | some h => simp [τ, hp, hι place h hp hplace]
  have hopen : ∀ t ∈ s.submitted.map (GateCall.task tfhe), ∀ place ∈ t.handles,
      place ∉ s.written := by
    intro t ht place hplace hwritten
    obtain ⟨other, hother, rfl⟩ := List.mem_map.mp ht
    exact hhost place hwritten other hother hplace
  have houtput : call.output ∉ s.written := fun hwritten =>
    hhost call.output hwritten call (List.mem_of_getElem? hcall) List.mem_cons_self
  calc s.hostValue main call.output
      = s.runtime.copies handle main := by
        rw [System.hostValue, show s.world.find call.output = some handle from hfind]
    _ = ((s.runtime.patch shadow).withInit ι).copies handle main :=
        (Runtime.patch_copies hnone main).symm
    _ = runAll s.runtime.tasks ι handle := by
        have hcur' := (Runtime.current_patch hnone).mpr hcur
        exact Runtime.Current.copy_eq (r := (s.runtime.patch shadow).withInit ι)
          ⟨hcur'.done, hcur'.copy⟩ hok
    _ = runAll (s.submitted.map (GateCall.task tfhe)) τ call.output :=
        runAll_named hn.unshared hn.tasks (σ := τ) (fun place h hplace => by
          simp [τ, show s.world.find place = some h from hplace]) call.output handle hfind
    _ = runAll (s.submitted.map (GateCall.task tfhe)) σ call.output :=
        runAll_congr _ hopen hτ call.output houtput
    _ = runCalls tfhe s.submitted σ call.output := by rw [runAll_tasks]

end Refinement

/-! ### Two captured gates -/

/-- The second of two tasks may start before the first if they do not conflict. -/
theorem ready_second {H N V : Type} {r : Runtime H N V} {a b : Task H V}
    (htasks : r.tasks = [a, b]) (hc : ¬ a.Conflict b) :
    ∀ j u, j < 1 → r.tasks[j]? = some u → u.Conflict b → j ∈ r.finished := by
  intro j u hj hu hconflict
  obtain rfl := Nat.lt_one_iff.mp hj
  rw [htasks] at hu
  obtain rfl : a = u := by simpa using hu
  exact absurd hconflict hc

/-- The output of the second of two tasks can be read once it has finished. -/
theorem readAcquired_second {H N V : Type} {r : Runtime H N V} {a b : Task H V} {main : N}
    {h : H} (htasks : r.tasks = [a, b]) (hne : a.target ≠ h) (hfinished : 1 ∈ r.finished)
    (hvalid : main ∈ r.valid h) : r.ReadAcquired main h 2 where
  before := by
    intro j t ht htgt hj
    rw [htasks] at ht
    rcases Nat.le_one_iff_eq_zero_or_eq_one.mp (Nat.le_of_lt_succ hj) with rfl | rfl
    · obtain rfl : a = t := by simpa using ht
      exact absurd htgt hne
    · exact hfinished
  after := by
    intro j t ht htgt hj
    rw [htasks] at ht
    exact absurd (List.getElem?_eq_some_iff.mp ht).1 (Nat.not_lt.mpr hj)
  here := hvalid

/-- Two inverters captured by one thread; only the second one has run, and its output has
been synchronised through the token of the capture. -/
theorem exists_twoInverters : ∃ s : System Unit Unit Unit Bool,
    Relation.ReflTransGen (Step clearTFHE () false) (System.start () fun _ => true) s ∧
      s.submitted = [.not 1 0, .not 3 2] ∧ s.synchronized = [1] ∧ s.written = [] ∧
      s.captures = [⟨[0, 1], some 1⟩] ∧ s.runtime.finished = {1} := by
  refine reach_head (.beginCapture _ () _ rfl rfl) ?_
  refine reach_head (.call _ () (.not 1 0) rfl) ?_
  refine reach_head (.ensure _ () none (some _) {} (.ok ⟨⟩) _ rfl rfl) ?_
  refine reach_head (.handleFor _ () _ _ ⟨.W, .tlwe, 1⟩ 0 _ rfl rfl rfl) ?_
  refine reach_head (.handleFor _ () _ _ ⟨.R, .tlwe, 0⟩ 1 _ rfl rfl rfl) ?_
  refine reach_head (.insert _ () _ _ {} 0 _ rfl rfl (fun _ _ => List.not_mem_nil) rfl) ?_
  refine reach_head (.call _ () (.not 3 2) rfl) ?_
  refine reach_head (.ensure _ () none (some _) {} (.ok ⟨⟩) _ rfl rfl) ?_
  refine reach_head (.handleFor _ () _ _ ⟨.W, .tlwe, 3⟩ 2 _ rfl rfl rfl) ?_
  refine reach_head (.handleFor _ () _ _ ⟨.R, .tlwe, 2⟩ 3 _ rfl rfl rfl) ?_
  refine reach_head (.insert _ () _ _ {} 1 _ rfl rfl (fun _ _ => List.not_mem_nil) rfl) ?_
  refine reach_head (.endCapture _ () _ _ rfl rfl) ?_
  refine reach_head (Step.work _ _ (.start _ 1 _ () false rfl (Finset.notMem_empty 1)
    (ready_second rfl (by unfold Task.Conflict; decide)) (List.forall_mem_singleton.mpr rfl))
    rfl (fun _ h => absurd h List.not_mem_nil)) ?_
  refine reach_head (Step.work _ _ (.finish _ 1 _ rfl ⟨Finset.mem_insert_self 1 ∅,
    Finset.notMem_empty 1⟩) rfl (fun _ h => absurd h List.not_mem_nil)) ?_
  refine reach_head (.completed _ 1 _ (Finset.mem_insert_self 1 ∅) rfl) ?_
  refine reach_head (.synchronizeOutput _ () 1 _ rfl rfl) ?_
  refine reach_head (.acquired _ () 1 2 _ rfl rfl (fun _ h => absurd h List.not_mem_nil)
    (readAcquired_second rfl (show (0 : Nat) ≠ 2 by decide) (Finset.mem_insert_self 1 ∅) rfl)) ?_
  exact ⟨_, .refl, rfl, rfl, rfl, rfl, rfl⟩

/-- The synchronised output of the second inverter. -/
theorem synchronized_value_twoInverters : ∃ s : System Unit Unit Unit Bool,
    s.submitted = [.not 1 0, .not 3 2] ∧ s.synchronized = [1] ∧
      s.hostValue () (.persistentHandles, 3) = false := by
  obtain ⟨s, hrun, hsubmitted, hsync, hwritten, -, -⟩ := exists_twoInverters
  refine ⟨s, hsubmitted, hsync, ?_⟩
  have hvalue := synchronized_value hrun (by simp [hsubmitted, GateCall.Unaliased])
    (by simp [hwritten]) (hsync ▸ List.mem_singleton_self 1)
    (show s.submitted[1]? = some (.not 3 2) by rw [hsubmitted]; rfl) (by
      intro j other hother hj
      rw [hsubmitted] at hother
      exact absurd (List.getElem?_eq_some_iff.mp hother).1 (Nat.not_lt.mpr hj))
  rw [hsubmitted] at hvalue
  exact hvalue

end Tangor.Iyokan
