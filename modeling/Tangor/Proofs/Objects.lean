/-
The objects, and the tasks on them.

Seen from the ciphertexts, the backend is a simple machine: an object gets a handle the
first time a call names it, a call becomes a task over the handles of its operands, the
host writes an object and says so.  `Objects` is that machine, without threads, locks and
tokens; the threads refine it.

Its invariants are three.  `Names`: the two registries are one injective map from objects
to handles that only grows, so the tasks StarPU has are the submitted calls, one by one.
`Memory`: but for what the host has written and not announced, StarPU is in a state its
own rules lead to.  `Fresh` and `Kept`: what a synchronised output and a host write can
rely on.
-/
import Tangor.IyokanThreads
import Tangor.TaskGraph.Named
import Tangor.Proofs.Keys
import Mathlib.Tactic.SplitIfs

namespace Tangor.Iyokan

open Throwing TaskGraph

variable {Tid Key N V : Type}

/-! ### Calls as tasks -/

/-- A call opens its output for writing and the other operands for reading. -/
theorem submission_modes (call : GateCall Key) :
    call.submission.output.mode ≠ .R ∧ ∀ access ∈ call.submission.inputs, access.mode = .R := by
  cases call with
  | binaryGate | not | mux | muxWoSE =>
      simp [GateCall.submission, submitAsync, submitMuxWoSEAsync]
  | cmuxFFT output select whenTrue whenFalse =>
      simp only [GateCall.submission, submitVariableAsync]
      split_ifs <;> simp

section Tasks

variable [Inhabited V] (tfhe : TFHE Key V)

/-- The task of a call, over objects. -/
def GateCall.task (call : GateCall Key) : Task Place V where
  target := call.output
  update := call.submission.output.mode = .RW
  sources := call.submission.inputs.map Access.place
  fn := call.submission.codelet.run tfhe call.evalKey

theorem task_handles (call : GateCall Key) : (call.task tfhe).handles = call.places := rfl

/-- A codelet that does not bootstrap does not look at the key. -/
theorem run_congr (call : GateCall Key) {currentEvalKey : Option Key}
    (h : ∀ key, call.evalKey = some key → currentEvalKey = some key) :
    call.submission.codelet.run tfhe currentEvalKey
      = call.submission.codelet.run tfhe call.evalKey := by
  have hfree : ∀ codelet ∈ [IyokanCodelet.notCodelet, .cmuxFFTCodelet,
      .cmuxFFTInPlaceTrueCodelet, .cmuxFFTInPlaceFalseCodelet],
      codelet.run tfhe currentEvalKey = codelet.run tfhe none := by
    intro codelet hmem
    funext buffers
    simp only [List.mem_cons, List.not_mem_nil, or_false] at hmem
    rcases hmem with rfl | rfl | rfl | rfl <;>
      rcases buffers with _ | ⟨a, _ | ⟨b, _ | ⟨c, _ | ⟨d, rest⟩⟩⟩⟩ <;> rfl
  cases call with
  | binaryGate | mux | muxWoSE => rw [h _ rfl]; rfl
  | not output input => exact hfree _ (by simp [GateCall.submission, submitAsync])
  | cmuxFFT output select whenTrue whenFalse =>
      refine hfree _ ?_
      simp only [GateCall.submission, submitVariableAsync]
      split_ifs <;> simp

/-- Running the task of a call is executing the call. -/
theorem task_apply (call : GateCall Key) (σ : Place → V) :
    (call.task tfhe).apply σ = call.apply tfhe σ := by
  refine congrArg (Function.update σ call.output) ?_
  cases call with
  | binaryGate | not | mux | muxWoSE => rfl
  | cmuxFFT output select whenTrue whenFalse =>
      by_cases htrue : output = whenTrue
      · subst htrue
        simp [Task.operands, GateCall.task, GateCall.output, GateCall.submission,
          submitVariableAsync, IyokanCodelet.run, GateCall.value, Access.place]
      · by_cases hfalse : output = whenFalse
        · subst hfalse
          simp [Task.operands, GateCall.task, GateCall.output, GateCall.submission,
            submitVariableAsync, IyokanCodelet.run, GateCall.value, Access.place, htrue]
        · simp [Task.operands, GateCall.task, GateCall.submission, submitVariableAsync,
            IyokanCodelet.run, GateCall.value, Access.place, htrue, hfalse]

theorem runAll_tasks (calls : List (GateCall Key)) (σ : Place → V) :
    runAll (calls.map (GateCall.task tfhe)) σ = runCalls tfhe calls σ := by
  induction calls generalizing σ with
  | nil => rfl
  | cons call rest ih =>
      rw [List.map_cons, runAll_cons, task_apply, ih]
      rfl

theorem task_separate {call : GateCall Key} (h : call.Unaliased) : (call.task tfhe).Separate := by
  cases call with
  | binaryGate gate output left right evalKey =>
      obtain ⟨hleft, hright⟩ := h
      simp [Task.Separate, GateCall.task, GateCall.output, GateCall.submission, submitAsync,
        Access.place, hleft, hright]
  | not output input =>
      have hinput : output ≠ input := h
      simp [Task.Separate, GateCall.task, GateCall.output, GateCall.submission, submitAsync,
        Access.place, hinput]
  | mux output select whenTrue whenFalse evalKey =>
      obtain ⟨hselect, htrue, hfalse⟩ := h
      simp [Task.Separate, GateCall.task, GateCall.output, GateCall.submission, submitAsync,
        Access.place, hselect, htrue, hfalse]
  | cmuxFFT output select whenTrue whenFalse =>
      obtain ⟨hselect, hboth⟩ := h
      by_cases htrue : output = whenTrue
      · have hfalse : output ≠ whenFalse := fun hf => hboth ⟨htrue, hf⟩
        subst htrue
        simp [Task.Separate, GateCall.task, GateCall.output, GateCall.submission,
          submitVariableAsync, Access.place, hselect, hfalse]
      · by_cases hfalse : output = whenFalse
        · subst hfalse
          simp [Task.Separate, GateCall.task, GateCall.output, GateCall.submission,
            submitVariableAsync, Access.place, hselect, htrue]
        · simp [Task.Separate, GateCall.task, GateCall.output, GateCall.submission,
            submitVariableAsync, Access.place, hselect, htrue, hfalse]
  | muxWoSE output select whenTrue whenFalse evalKey =>
      simp [Task.Separate, GateCall.task, GateCall.output, GateCall.submission,
        submitMuxWoSEAsync, Access.place]

end Tasks

/-! ### The machine -/

/-- What the backend is to the objects. -/
structure Objects (Key N V : Type) where
  find : Place → Option Handle
  nextHandle : Handle
  runtime : Runtime Handle N V
  memory : Place → V
  submitted : List (GateCall Key)
  synchronized : List IyokanStarpuTask
  dirty : List Place
  written : List Place
  lastWrite : Place → Option (V × Nat)

/-- What the system is to the objects. -/
def System.objects (s : System Tid Key N V) : Objects Key N V where
  find := s.world.find
  nextHandle := s.world.nextHandle
  runtime := s.runtime
  memory := s.memory
  submitted := s.submitted
  synchronized := s.synchronized
  dirty := s.dirty
  written := s.written
  lastWrite := s.lastWrite

namespace Objects

/-- Every task that touches the object has finished. -/
def Untouched (o : Objects Key N V) (place : Place) : Prop :=
  ∀ i call, o.submitted[i]? = some call → place ∈ call.places → i ∈ o.runtime.finished

/-- The tokens whose output is another object. -/
def stillSynchronized (o : Objects Key N V) (place : Place) : List IyokanStarpuTask :=
  o.synchronized.filter fun task => o.submitted[task]?.map GateCall.output ≠ some place

/-- The task of a call over the handles of its operands. -/
def taskOver [Inhabited V] (tfhe : TFHE Key V) (call : GateCall Key) (target : Handle)
    (sources : List Handle) : Task Handle V where
  target := target
  update := call.submission.output.mode = .RW
  sources := sources
  fn := call.submission.codelet.run tfhe call.evalKey

variable [DecidableEq N]

def register (main : N) (o : Objects Key N V) (place : Place) : Objects Key N V :=
  { o with
    find := Function.update o.find place (some o.nextHandle)
    nextHandle := o.nextHandle + 1
    runtime := o.runtime.register main o.nextHandle (o.memory place) }

def hostWrite (main : N) (o : Objects Key N V) (place : Place) (v : V) : Objects Key N V :=
  { o with
    runtime := match o.find place with
      | some handle => o.runtime.poke handle main v
      | none => o.runtime
    memory := match o.find place with
      | some _ => o.memory
      | none => Function.update o.memory place v
    synchronized := o.stillSynchronized place
    dirty := place :: o.dirty
    written := place :: o.written
    lastWrite := Function.update o.lastWrite place (some (v, o.submitted.length)) }

omit [DecidableEq N] in
/-- The host says that it has written. -/
def marked (o : Objects Key N V) (place : Place) : Objects Key N V :=
  { o with
    synchronized := o.stillSynchronized place
    dirty := o.dirty.filter (· ≠ place)
    written := place :: o.written }

/-- StarPU hears of it. -/
def announce (main : N) (o : Objects Key N V) (place : Place) (handle : Handle) :
    Objects Key N V :=
  { o.marked place with
    runtime := o.runtime.overwrite handle main (o.runtime.copies handle main) }

variable [Inhabited V] (tfhe : TFHE Key V) (main : N)

/-- What happens to the objects. -/
inductive Step : Objects Key N V → Objects Key N V → Prop
  | register (o : Objects Key N V) (place : Place) (hfree : o.find place = none) :
      Step o (o.register main place)
  | submit (o : Objects Key N V) (call : GateCall Key) (target : Handle) (sources : List Handle)
      (htarget : o.find call.output = some target)
      (hsources : List.Forall₂ (fun access handle => o.find access.place = some handle)
        call.submission.inputs sources)
      (hclean : ∀ place ∈ call.places, place ∉ o.dirty) :
      Step o { o with
        runtime := o.runtime.submit (taskOver tfhe call target sources)
        submitted := o.submitted ++ [call] }
  | acquire (o : Objects Key N V) (task : IyokanStarpuTask) (call : GateCall Key)
      (handle : Handle) (count : Nat) (hcall : o.submitted[task]? = some call)
      (hfind : o.find call.output = some handle) (hcount : task < count)
      (hclean : call.output ∉ o.dirty) (hacquired : o.runtime.ReadAcquired main handle count) :
      Step o { o with synchronized := task :: o.synchronized }
  | hostWrite (o : Objects Key N V) (place : Place) (v : V) (hidle : o.Untouched place) :
      Step o (o.hostWrite main place v)
  | announce (o : Objects Key N V) (place : Place) (handle : Handle) (count : Nat)
      (hfind : o.find place = some handle) (hacquired : o.runtime.WriteAcquired handle count) :
      Step o (o.announce main place handle)
  | marked (o : Objects Key N V) (place : Place) (hfree : o.find place = none) :
      Step o (o.marked place)
  | work (o : Objects Key N V) (r : Runtime Handle N V) (h : o.runtime.Step r)
      (hmain : ∀ place ∈ o.dirty, ∀ handle, o.find place = some handle →
        r.copies handle main = o.runtime.copies handle main) :
      Step o { o with runtime := r }

end Objects

/-! ### Names -/

section Names

variable [Inhabited V] {tfhe : TFHE Key V} {main : N}

/-- The registries lead from one object to one handle, and every task is a call. -/
structure Objects.Names (tfhe : TFHE Key V) (o : Objects Key N V) : Prop where
  unshared : Registry.Unshared o.find
  bound : ∀ place handle, o.find place = some handle → handle < o.nextHandle
  tasks : List.Forall₂ (Task.Named o.find) (o.submitted.map (GateCall.task tfhe)) o.runtime.tasks

namespace Objects.Names

variable {o : Objects Key N V}

theorem length (ho : o.Names tfhe) : o.submitted.length = o.runtime.tasks.length := by
  have := ho.tasks.length_eq
  rwa [List.length_map] at this

/-- The task of a submitted call. -/
theorem task (ho : o.Names tfhe) {i : Nat} {call : GateCall Key}
    (hcall : o.submitted[i]? = some call) :
    ∃ t, o.runtime.tasks[i]? = some t ∧ (call.task tfhe).Named o.find t :=
  Fallible.forall₂_getElem?_left ho.tasks (by rw [List.getElem?_map, hcall, Option.map_some])

/-- The call of a task. -/
theorem call (ho : o.Names tfhe) {i : Nat} {t : Task Handle V}
    (ht : o.runtime.tasks[i]? = some t) :
    ∃ call, o.submitted[i]? = some call ∧ (call.task tfhe).Named o.find t := by
  obtain ⟨u, hu, hnamed⟩ := Fallible.forall₂_getElem?_right ho.tasks ht
  rw [List.getElem?_map, Option.map_eq_some_iff] at hu
  obtain ⟨call, hcall, rfl⟩ := hu
  exact ⟨call, hcall, hnamed⟩

/-- A task that opens the handle of an object is of a call that opens the object. -/
theorem opens (ho : o.Names tfhe) {i : Nat} {t : Task Handle V} {place : Place}
    {handle : Handle} (ht : o.runtime.tasks[i]? = some t) (hfind : o.find place = some handle)
    (hh : handle ∈ t.handles) :
    ∃ call, o.submitted[i]? = some call ∧ place ∈ call.places := by
  obtain ⟨call, hcall, hnamed⟩ := ho.call ht
  obtain ⟨place', hplace', hfind'⟩ := Fallible.forall₂_mem_right hnamed.handles hh
  exact ⟨call, hcall, ho.unshared place' place handle hfind' hfind ▸ hplace'⟩

/-- A task that writes the handle of an object is of a call that writes the object. -/
theorem writes (ho : o.Names tfhe) {i : Nat} {t : Task Handle V} {place : Place}
    {handle : Handle} (ht : o.runtime.tasks[i]? = some t) (hfind : o.find place = some handle)
    (htgt : t.target = handle) :
    ∃ call, o.submitted[i]? = some call ∧ call.output = place := by
  obtain ⟨call, hcall, hnamed⟩ := ho.call ht
  exact ⟨call, hcall, ho.unshared _ _ handle (htgt ▸ hnamed.target) hfind⟩

theorem idle (ho : o.Names tfhe) {place : Place} {handle : Handle}
    (hfind : o.find place = some handle) (hidle : o.Untouched place) :
    o.runtime.Idle handle := by
  intro i t ht hh
  obtain ⟨call, hcall, hplace⟩ := ho.opens ht hfind hh
  exact hidle i call hcall hplace

/-- No task opens a handle that has not been given out. -/
theorem fresh (ho : o.Names tfhe) : ∀ t ∈ o.runtime.tasks, o.nextHandle ∉ t.handles := by
  intro t ht hh
  obtain ⟨call, -, hnamed⟩ := Fallible.forall₂_mem_right ho.tasks ht
  obtain ⟨place, -, hfind⟩ := Fallible.forall₂_mem_right hnamed.handles hh
  exact Nat.lt_irrefl _ (ho.bound place _ hfind)

/-- Two objects do not have the same handle. -/
theorem ne (ho : o.Names tfhe) {place place' : Place} {handle handle' : Handle}
    (hfind : o.find place = some handle) (hfind' : o.find place' = some handle')
    (hne : place ≠ place') : handle ≠ handle' := by
  rintro rfl
  exact hne (ho.unshared place place' handle hfind hfind')

/-- Whatever is written, the names stay. -/
theorem same {o' : Objects Key N V} (ho : o.Names tfhe) (hfind : o'.find = o.find)
    (hnext : o'.nextHandle = o.nextHandle) (htasks : o'.runtime.tasks = o.runtime.tasks)
    (hsubmitted : o'.submitted = o.submitted) : o'.Names tfhe where
  unshared := by rw [hfind]; exact ho.unshared
  bound := by rw [hfind, hnext]; exact ho.bound
  tasks := by rw [hfind, htasks, hsubmitted]; exact ho.tasks

variable [DecidableEq N]

theorem register (ho : o.Names tfhe) {place : Place} (hfree : o.find place = none) :
    (o.register main place).Names tfhe where
  unshared := by
    have hold : ∀ x h, o.find x = some h → h ≠ o.nextHandle :=
      fun x h hx heq => Nat.lt_irrefl _ (heq ▸ ho.bound x h hx)
    intro x y h hx hy
    simp only [Objects.register, Function.update_apply] at hx hy
    split_ifs at hx hy with hxp hyp hyp
    · rw [hxp, hyp]
    · exact absurd (Option.some.inj hx).symm (hold y h hy)
    · exact absurd (Option.some.inj hy).symm (hold x h hx)
    · exact ho.unshared x y h hx hy
  bound := by
    intro x h hx
    show h < o.nextHandle + 1
    simp only [Objects.register, Function.update_apply] at hx
    split_ifs at hx
    · exact Option.some.inj hx ▸ Nat.lt_succ_self _
    · exact Nat.lt_succ_of_lt (ho.bound x h hx)
  tasks := by
    refine ho.tasks.imp fun t u hn => hn.mono fun x h hx => ?_
    have hne : x ≠ place := by
      rintro rfl
      exact absurd (hfree.symm.trans hx) (by simp)
    simpa [Objects.register, Function.update_of_ne hne] using hx

theorem step {o' : Objects Key N V} (ho : o.Names tfhe) (h : Objects.Step tfhe main o o') :
    o'.Names tfhe := by
  cases h with
  | register place hfree => exact ho.register hfree
  | submit call target sources htarget hsources hclean =>
      refine ⟨ho.unshared, ho.bound, ?_⟩
      simp only [List.map_append, List.map_cons, List.map_nil, Runtime.submit]
      refine List.rel_append ho.tasks (.cons ⟨htarget, rfl, ?_, rfl⟩ .nil)
      exact List.forall₂_map_left_iff.mpr hsources
  | acquire | marked => exact ho.same rfl rfl rfl rfl
  | hostWrite place v hidle =>
      refine ho.same rfl rfl ?_ rfl
      unfold Objects.hostWrite
      cases o.find place <;> rfl
  | announce place handle count hfind hacquired => exact ho.same rfl rfl rfl rfl
  | work r hstep hmain => exact ho.same rfl rfl hstep.tasks_eq rfl

end Objects.Names

end Names

end Tangor.Iyokan
