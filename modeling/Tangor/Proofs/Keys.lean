/-
The key a codelet finds when it runs.

`currentEvalKey` is looked at when a call enters, under a lock, and read again by the
codelet, whenever StarPU gets to it.  In between the key must not change, although a
shutdown takes it away and the next call may bring another.

What holds it in place is that a shutdown waits for all tasks before it drops the key,
and that while it waits it keeps the lock, so that no call with a key gets past
`ensureStarpu`.  `Keys` says this of a state: a call that is about to submit has its key
bound, or needs none if a shutdown is waiting, and so has every task that has not
finished.
-/
import Tangor.IyokanThreads
import Tangor.Proofs.Backend

namespace Tangor.Iyokan

open Throwing TaskGraph

variable {Tid Key N V : Type}

/-- An entry of a list with one more at the end. -/
theorem getElem?_append_singleton {α : Type} {l : List α} {a b : α} {i : Nat}
    (h : (l ++ [a])[i]? = some b) : l[i]? = some b ∨ (i = l.length ∧ b = a) := by
  rcases Nat.lt_or_ge i l.length with hlt | hge
  · exact Or.inl (by rwa [← List.getElem?_append_left hlt])
  · rw [List.getElem?_append_right hge] at h
    obtain ⟨hlt, heq⟩ := List.getElem?_eq_some_iff.mp h
    rw [List.length_singleton] at hlt
    exact Or.inr ⟨by omega, by rw [← heq, List.getElem_singleton]⟩

/-! ### What the calls do to StarPU -/

/-- A task is submitted and accepted. -/
def LibraryCall.Submits : LibraryCall Key → Bool
  | .taskInsert _ (_ :: _) status => status = 0
  | _ => false

section Serve

variable [Inhabited V] [DecidableEq N] (tfhe : TFHE Key V) (main : N) (memory : Place → V)
  (currentEvalKey : Option Key)

theorem serve_finished (r : Runtime Handle N V) (call : LibraryCall Key) :
    (serve tfhe main memory currentEvalKey r call).finished = r.finished := by
  cases call with
  | taskInsert codelet buffers status =>
      rcases buffers with _ | ⟨⟨mode, target⟩, sources⟩
      · rfl
      · simp only [serve]
        split_ifs <;> rfl
  | _ => rfl

theorem serve_started (r : Runtime Handle N V) (call : LibraryCall Key) :
    (serve tfhe main memory currentEvalKey r call).started = r.started := by
  cases call with
  | taskInsert codelet buffers status =>
      rcases buffers with _ | ⟨⟨mode, target⟩, sources⟩
      · rfl
      · simp only [serve]
        split_ifs <;> rfl
  | _ => rfl

theorem serve_length (r : Runtime Handle N V) (call : LibraryCall Key) :
    (serve tfhe main memory currentEvalKey r call).tasks.length
      = r.tasks.length + if call.Submits then 1 else 0 := by
  cases call with
  | taskInsert codelet buffers status =>
      rcases buffers with _ | ⟨⟨mode, target⟩, sources⟩
      · rfl
      · by_cases hstatus : status = 0 <;>
          simp [serve, LibraryCall.Submits, hstatus, Runtime.submit]
  | _ => rfl

theorem foldl_serve_finished (r : Runtime Handle N V) (calls : List (LibraryCall Key)) :
    (calls.foldl (serve tfhe main memory currentEvalKey) r).finished = r.finished := by
  induction calls generalizing r with
  | nil => rfl
  | cons call rest ih => rw [List.foldl_cons, ih, serve_finished]

theorem foldl_serve_started (r : Runtime Handle N V) (calls : List (LibraryCall Key)) :
    (calls.foldl (serve tfhe main memory currentEvalKey) r).started = r.started := by
  induction calls generalizing r with
  | nil => rfl
  | cons call rest ih => rw [List.foldl_cons, ih, serve_started]

theorem foldl_serve_length (r : Runtime Handle N V) {calls : List (LibraryCall Key)}
    (h : ∀ call ∈ calls, call.Submits = false) :
    (calls.foldl (serve tfhe main memory currentEvalKey) r).tasks.length = r.tasks.length := by
  induction calls generalizing r with
  | nil => rfl
  | cons call rest ih =>
      rw [List.foldl_cons, ih _ fun c hc => h c (List.mem_cons_of_mem _ hc), serve_length,
        h call List.mem_cons_self]
      rfl

end Serve

/-! ### The key cuFHEpp has -/

/-- The key of the last initialisation of cuFHEpp. -/
def World.initializedWith (w : World Key) : Option Key :=
  (w.calls.filterMap fun
    | .cufheInitialize evalKey => some evalKey
    | _ => none).getLast?

/-- Between the two no task has been submitted. -/
def World.SubmitsNothing (w w' : World Key) : Prop :=
  ∃ calls, w'.calls = w.calls ++ calls ∧ ∀ call ∈ calls, call.Submits = false

theorem submitsNothing_of_eq {w w' : World Key} (h : w'.calls = w.calls) : w.SubmitsNothing w' :=
  ⟨[], by simpa using h, by simp⟩

theorem submitsNothing_call (w : World Key) (call : LibraryCall Key)
    (h : call.Submits = false) : w.SubmitsNothing (w.call call) :=
  ⟨[call], rfl, by simpa using h⟩

theorem World.SubmitsNothing.trans {w w' w'' : World Key} (h : w.SubmitsNothing w')
    (h' : w'.SubmitsNothing w'') : w.SubmitsNothing w'' := by
  obtain ⟨calls, hcalls, hnone⟩ := h
  obtain ⟨calls', hcalls', hnone'⟩ := h'
  refine ⟨calls ++ calls', by rw [hcalls', hcalls, List.append_assoc], fun call hcall => ?_⟩
  exact (List.mem_append.mp hcall).elim (hnone call) (hnone' call)

/-- Parts of the backend that submit nothing and leave the keys alone. -/
structure World.KeepsKeys (w w' : World Key) : Prop where
  currentEvalKey : w'.currentEvalKey = w.currentEvalKey
  cufheppInitialized : w'.cufheppInitialized = w.cufheppInitialized
  initializedWith : w'.initializedWith = w.initializedWith
  calls : w.SubmitsNothing w'

theorem keepsKeys_refl (w : World Key) : w.KeepsKeys w :=
  ⟨rfl, rfl, rfl, submitsNothing_of_eq rfl⟩

/-- A call that neither submits nor initialises cuFHEpp. -/
theorem initializedWith_append {w w' : World Key} (calls : List (LibraryCall Key))
    (h : w'.calls = w.calls ++ calls) (hnone : ∀ key, .cufheInitialize key ∉ calls) :
    w'.initializedWith = w.initializedWith := by
  unfold World.initializedWith
  rw [h, List.filterMap_append]
  have hnil : (calls.filterMap fun
      | .cufheInitialize evalKey => some evalKey
      | _ => none) = [] := by
    refine List.filterMap_eq_nil_iff.mpr fun call hcall => ?_
    cases call with
    | cufheInitialize key => exact absurd hcall (hnone key)
    | _ => rfl
  rw [hnil, List.append_nil]

theorem keepsKeys_afterInit (w : World Key) (answers : Answers) :
    w.KeepsKeys (w.afterInit answers) := by
  refine ⟨rfl, rfl, initializedWith_append _ rfl ?_, _, rfl, ?_⟩
  · intro key
    split_ifs <;> simp
  · intro call hcall
    by_cases hinit : answers.init = 0
    · rw [if_pos hinit] at hcall
      rcases List.mem_cons.mp hcall with rfl | hcall
      · rfl
      · rw [List.mem_singleton.mp hcall]
        rfl
    · rw [if_neg hinit] at hcall
      rw [List.mem_singleton.mp hcall]
      rfl

theorem keepsKeys_ensureStarpuRuntime {answers : Answers} {w w' : World Key}
    {r : Except String PUnit} (h : (ensureStarpuRuntime answers).exec w = (r, w')) :
    w.KeepsKeys w' := by
  rw [exec_ensureStarpuRuntime] at h
  obtain ⟨-, rfl⟩ := Prod.mk.injEq .. ▸ h
  cases w.starpuInitOnce with
  | true => exact keepsKeys_refl w
  | false => exact keepsKeys_afterInit w answers

theorem keepsKeys_configure {cpuWorkers cudaDevices : Nat} {w w' : World Key}
    {r : Except String PUnit}
    (h : (configureIyokanStarpu cpuWorkers cudaDevices).exec w = (r, w')) : w.KeepsKeys w' := by
  rw [exec_configureIyokanStarpu] at h
  split_ifs at h
  · obtain ⟨-, rfl⟩ := Prod.mk.injEq .. ▸ h
    exact keepsKeys_refl w
  · obtain ⟨-, rfl⟩ := Prod.mk.injEq .. ▸ h
    exact ⟨rfl, rfl, rfl, submitsNothing_of_eq rfl⟩

theorem keepsKeys_handleFor {access : Access} {w w' : World Key} {r : Except String Handle}
    (h : (handleFor access).exec w = (r, w')) : w.KeepsKeys w' := by
  rw [exec_handleFor] at h
  split at h
  · obtain ⟨-, rfl⟩ := Prod.mk.injEq .. ▸ h
    exact keepsKeys_refl w
  · obtain ⟨-, rfl⟩ := Prod.mk.injEq .. ▸ h
    rcases access with ⟨mode, _ | _ | _, address⟩ <;>
      exact ⟨rfl, rfl, initializedWith_append _ rfl (by simp [Access.registerCall]), _, rfl,
        by simp [Access.registerCall, LibraryCall.Submits]⟩

theorem keepsKeys_call (w : World Key) {call : LibraryCall Key} (hsubmits : call.Submits = false)
    (hinit : ∀ key, call ≠ .cufheInitialize key) : w.KeepsKeys (w.call call) :=
  ⟨rfl, rfl, initializedWith_append [call] rfl
    (fun key => by simpa using (hinit key).symm), submitsNothing_call w call hsubmits⟩

theorem submitsNothing_cleanupCufhepp (w : World Key) : w.SubmitsNothing w.cleanupCufhepp := by
  unfold World.cleanupCufhepp
  split_ifs
  · exact submitsNothing_call w _ rfl
  · exact submitsNothing_of_eq rfl

theorem submitsNothing_shutdown (useCufhepp : Bool) (w : World Key) :
    w.SubmitsNothing (w.shutdown useCufhepp) := by
  have hunregister : w.SubmitsNothing w.unregister := by
    refine (submitsNothing_call w _ rfl).trans
      ⟨w.handles.map .dataUnregisterNoCoherency, rfl, fun call hcall => ?_⟩
    obtain ⟨handle, -, rfl⟩ := List.mem_map.mp hcall
    rfl
  unfold World.shutdown
  refine World.SubmitsNothing.trans ?_ (submitsNothing_call _ .starpuShutdown rfl)
  cases useCufhepp with
  | true => exact hunregister.trans (submitsNothing_cleanupCufhepp w.unregister)
  | false => exact hunregister

theorem initializedWith_afterInit (w : World Key) (evalKey : Key) :
    (((w.call .cudaWorkerGetCount).call (.cufheInitialize evalKey)).call
      (.atexit .cleanupIyokanCufhepp)).initializedWith = some evalKey := by
  simp [World.initializedWith, World.call, List.filterMap_append]

/-- Binding a key leaves cuFHEpp alone, asks for CUDA workers in vain, or initialises it. -/
theorem bind_cases [DecidableEq Key] (w : World Key) (useCufhepp : Bool) (answers : Answers)
    (evalKey : Key) :
    let bound := { w with currentEvalKey := some evalKey }
    w.bind useCufhepp answers evalKey = bound ∨
      w.bind useCufhepp answers evalKey = bound.call .cudaWorkerGetCount ∨
      (useCufhepp = true ∧ w.bind useCufhepp answers evalKey =
        { ((bound.call .cudaWorkerGetCount).call (.cufheInitialize evalKey)).call
          (.atexit .cleanupIyokanCufhepp) with cufheppInitialized := true }) := by
  intro bound
  by_cases huse : useCufhepp = true
  · by_cases hinit : bound.cufheppInitialized = true
    · exact Or.inl (by
        simp only [World.bind, World.initializeCufhepp, if_pos huse, bound, if_pos hinit])
    · by_cases hdevices : answers.cudaWorkers ≠ 0 ∧ answers.cudaDevices ≠ 0
      · exact Or.inr (Or.inr ⟨huse, by
          simp only [World.bind, World.initializeCufhepp, if_pos huse, bound, if_neg hinit,
            if_pos hdevices]⟩)
      · exact Or.inr (Or.inl (by
          simp only [World.bind, World.initializeCufhepp, if_pos huse, bound, if_neg hinit,
            if_neg hdevices]))
  · exact Or.inl (by simp only [World.bind, if_neg huse, bound])

/-! ### The invariant -/

/-- What a thread knows of the keys where it is. -/
def Pc.Keys (currentEvalKey : Option Key) : Pc Key → Prop
  | .ensuring key next => ∀ call, next = some call → call.evalKey = key
  | .binding key next => ∀ call, next = some call → call.evalKey = some key
  | .submitting call _ => ∀ key, call.evalKey = some key → currentEvalKey = some key
  | _ => True

/-- The keys of the calls and tasks under way are bound. -/
structure System.Keys (useCufhepp : Bool) (s : System Tid Key N V) : Prop where
  length : s.runtime.tasks.length = s.submitted.length
  pcs : ∀ t, (s.threads t).pc.Keys s.world.currentEvalKey
  locked : ¬ s.Unlocked → ∀ t call handles, (s.threads t).pc = .submitting call handles →
    call.evalKey = none
  pending : ∀ i call key, s.submitted[i]? = some call → call.evalKey = some key →
    i ∉ s.runtime.finished → s.world.currentEvalKey = some key
  cufhepp : s.world.cufheppInitialized = true → useCufhepp = true ∧
    ∃ key, s.world.currentEvalKey = some key ∧ s.world.initializedWith = some key

theorem keys_start [Inhabited V] (useCufhepp : Bool) (main : N) (memory : Place → V) :
    (System.start main memory : System Tid Key N V).Keys useCufhepp where
  length := rfl
  pcs := fun _ => trivial
  locked := fun hlock => absurd (fun _ => by simp [System.start]) hlock
  pending := fun i call key hcall => absurd hcall (by simp [System.start])
  cufhepp := fun hinit => absurd hinit (by simp [System.start])

/-- Nothing that the invariant is about has changed. -/
theorem System.Keys.same {useCufhepp : Bool} {s s' : System Tid Key N V} (hs : s.Keys useCufhepp)
    (hworld : s'.world = s.world)
    (hpcs : ∀ t, (s'.threads t).pc = (s.threads t).pc) (hsubmitted : s'.submitted = s.submitted)
    (htasks : s'.runtime.tasks = s.runtime.tasks)
    (hfinished : s.runtime.finished ⊆ s'.runtime.finished) : s'.Keys useCufhepp where
  length := by rw [htasks, hsubmitted, hs.length]
  pcs := by
    intro t
    rw [hpcs, hworld]
    exact hs.pcs t
  locked := by
    intro hlock t call handles ht
    rw [hpcs] at ht
    refine hs.locked (fun h => hlock fun u => ?_) t call handles ht
    rw [hpcs]
    exact h u
  pending := by
    intro i call key hi hkey hnot
    rw [hsubmitted] at hi
    rw [hworld]
    exact hs.pending i call key hi hkey fun hmem => hnot (hfinished hmem)
  cufhepp := by
    rw [hworld]
    exact hs.cufhepp

/-- A call that is neither a submission nor an initialisation of cuFHEpp. -/
theorem System.Keys.called {useCufhepp : Bool} {s : System Tid Key N V} (hs : s.Keys useCufhepp)
    (call : LibraryCall Key)
    (hinit : ∀ key, call ≠ .cufheInitialize key) : (s.called call).Keys useCufhepp := by
  refine ⟨hs.length, hs.pcs, hs.locked, hs.pending, ?_⟩
  intro h
  obtain ⟨huse, key, hkey, hwith⟩ := hs.cufhepp h
  refine ⟨huse, key, hkey, (initializedWith_append [call] rfl ?_).trans hwith⟩
  exact fun key => by simpa using (hinit key).symm

section Moves

variable [DecidableEq N] [Inhabited V]

theorem ran_length (s : System Tid Key N V) (tfhe : TFHE Key V) (main : N) {w : World Key}
    (h : s.world.SubmitsNothing w) :
    (s.ran tfhe main w).runtime.tasks.length = s.runtime.tasks.length := by
  obtain ⟨calls, hcalls, hnone⟩ := h
  unfold System.ran
  rw [hcalls, List.drop_left]
  exact foldl_serve_length tfhe main s.memory w.currentEvalKey s.runtime hnone

/-- A part of the backend runs that leaves the keys alone. -/
theorem System.Keys.ran {useCufhepp : Bool} {s : System Tid Key N V} (hs : s.Keys useCufhepp)
    (tfhe : TFHE Key V) (main : N)
    {w : World Key} (hw : s.world.KeepsKeys w) : (s.ran tfhe main w).Keys useCufhepp where
  length := (ran_length s tfhe main hw.calls).trans hs.length
  pcs := by
    intro t
    rw [show (s.ran tfhe main w).world.currentEvalKey = _ from hw.currentEvalKey]
    exact hs.pcs t
  locked := hs.locked
  pending := by
    intro i call key hi hkey hnot
    rw [show (s.ran tfhe main w).world.currentEvalKey = _ from hw.currentEvalKey]
    exact hs.pending i call key hi hkey (by rwa [← foldl_serve_finished])
  cufhepp := by
    intro hinit
    obtain ⟨huse, key, hkey, hwith⟩ := hs.cufhepp (hw.cufheppInitialized ▸ hinit)
    exact ⟨huse, key, hw.currentEvalKey.trans hkey, hw.initializedWith.trans hwith⟩

/-- The key of a call is accepted and bound. -/
theorem System.Keys.bound [DecidableEq Key] {useCufhepp : Bool} {s : System Tid Key N V}
    (hs : s.Keys useCufhepp) (tfhe : TFHE Key V) (main : N) (answers : Answers) {key : Key}
    (haccepts : s.world.Accepts key) :
    (s.ran tfhe main (s.world.bind useCufhepp answers key)).Keys useCufhepp ∧
      (s.world.bind useCufhepp answers key).currentEvalKey = some key := by
  have hkey : (s.world.bind useCufhepp answers key).currentEvalKey = some key := by
    rcases bind_cases s.world useCufhepp answers key with h | h | ⟨-, h⟩ <;> rw [h] <;> rfl
  have hcalls : s.world.SubmitsNothing (s.world.bind useCufhepp answers key) := by
    rcases bind_cases s.world useCufhepp answers key with h | h | ⟨-, h⟩ <;> rw [h]
    · exact submitsNothing_of_eq rfl
    · exact ⟨[.cudaWorkerGetCount], rfl, by simp [LibraryCall.Submits]⟩
    · exact ⟨[.cudaWorkerGetCount, .cufheInitialize key, .atexit .cleanupIyokanCufhepp],
        by simp [World.call], by simp [LibraryCall.Submits]⟩
  -- A key that was bound before is this one.
  have hsame : ∀ old, s.world.currentEvalKey = some old → old = key := by
    intro old hold
    rcases haccepts with h | h
    · exact absurd (h.symm.trans hold) (by simp)
    · exact Option.some.inj (hold.symm.trans h)
  refine ⟨⟨?_, ?_, hs.locked, ?_, ?_⟩, hkey⟩
  · exact (ran_length s tfhe main hcalls).trans hs.length
  · intro t
    have ht := hs.pcs t
    cases hpc : (s.threads t).pc with
    | submitting call handles =>
        simp only [hpc, Pc.Keys, System.ran] at ht ⊢
        intro k hk
        rw [hkey, ← hsame k (ht k hk)]
    | ensuring | binding | idle | waiting | acquiring | marking | shuttingDown =>
        simp only [hpc, Pc.Keys, System.ran] at ht ⊢
        try exact ht
  · intro i call k hi hk hnot
    have hold := hs.pending i call k hi hk (by rwa [← foldl_serve_finished])
    exact hkey.trans (by rw [hsame k hold])
  · intro hinit
    suffices h : useCufhepp = true ∧
        (s.world.bind useCufhepp answers key).initializedWith = some key from
      ⟨h.1, key, hkey, h.2⟩
    have hold : s.world.cufheppInitialized = true →
        useCufhepp = true ∧ s.world.initializedWith = some key := by
      intro h
      obtain ⟨huse, old, hcurrent, hwith⟩ := hs.cufhepp h
      exact ⟨huse, by rw [hwith, hsame old hcurrent]⟩
    simp only [System.ran] at hinit
    rcases bind_cases s.world useCufhepp answers key with h | h | ⟨huse, h⟩ <;>
      rw [h] at hinit ⊢
    · exact hold hinit
    · obtain ⟨huse, hwith⟩ := hold hinit
      exact ⟨huse, (initializedWith_append [.cudaWorkerGetCount] rfl
        (by simp)).trans hwith⟩
    · exact ⟨huse, initializedWith_afterInit { s.world with currentEvalKey := some key } key⟩

/-- A shutdown has waited for all tasks, and no call with a key is under way. -/
theorem System.Keys.shutDown {useCufhepp : Bool} {s : System Tid Key N V}
    (hs : s.Keys useCufhepp) (tfhe : TFHE Key V) (main : N) {t : Tid}
    (hpc : (s.threads t).pc = .shuttingDown)
    (hall : ∀ i, i < s.runtime.tasks.length → i ∈ s.runtime.finished) :
    (s.ran tfhe main (s.world.shutdown useCufhepp)).Keys useCufhepp where
  length := (ran_length s tfhe main (submitsNothing_shutdown useCufhepp s.world)).trans hs.length
  pcs := by
    intro u
    have hu := hs.pcs u
    have hlock : ¬ s.Unlocked := fun h => h t hpc
    show (s.threads u).pc.Keys _
    cases hpcu : (s.threads u).pc with
    | submitting call handles =>
        intro key hkey
        exact absurd ((hs.locked hlock u call handles hpcu).symm.trans hkey) (by simp)
    | ensuring key next =>
        rw [hpcu] at hu
        exact hu
    | binding key next =>
        rw [hpcu] at hu
        exact hu
    | idle | waiting | acquiring | marking | shuttingDown => trivial
  locked := hs.locked
  pending := by
    intro i call key hi hkey hnot
    have hlt : i < s.submitted.length := (List.getElem?_eq_some_iff.mp hi).1
    exact absurd (hall i (hs.length ▸ hlt)) (by rwa [← foldl_serve_finished])
  cufhepp := by
    intro hinit
    have hdown : (s.world.shutdown useCufhepp).cufheppInitialized = true := hinit
    unfold World.shutdown World.cleanupCufhepp at hdown
    split_ifs at hdown with huse hcufhepp
    · exact absurd hdown (by simp [World.call])
    · exact absurd hdown hcufhepp
    · exact absurd (hs.cufhepp hdown).1 huse

end Moves

section Threads

variable [DecidableEq Tid]

theorem threads_goto (s : System Tid Key N V) (t u : Tid) (pc : Pc Key) :
    ((s.goto t pc).threads u).pc = if u = t then pc else (s.threads u).pc := by
  by_cases hut : u = t
  · subst hut
    simp [System.goto]
  · simp [System.goto, hut]

/-- Going somewhere else does not lock. -/
theorem unlocked_goto {s : System Tid Key N V} {t : Tid} {pc : Pc Key}
    (hpc : pc ≠ .shuttingDown) (h : s.Unlocked) : (s.goto t pc).Unlocked := by
  intro u
  rw [threads_goto]
  split_ifs
  · exact hpc
  · exact h u

/-- One thread goes on to a place where it knows what it has to. -/
theorem System.Keys.goto {useCufhepp : Bool} {s : System Tid Key N V} (hs : s.Keys useCufhepp)
    {t : Tid} {pc : Pc Key}
    (hpc : pc.Keys s.world.currentEvalKey) (hshut : pc ≠ .shuttingDown)
    (hlocked : ¬ s.Unlocked → ∀ call handles, pc = .submitting call handles →
      call.evalKey = none) : (s.goto t pc).Keys useCufhepp where
  length := hs.length
  pcs := by
    intro u
    rw [threads_goto]
    split_ifs
    · exact hpc
    · exact hs.pcs u
  locked := by
    intro hlock u call handles hu
    have hold : ¬ s.Unlocked := fun h => hlock (unlocked_goto hshut h)
    rw [threads_goto] at hu
    split_ifs at hu
    · exact hlocked hold call handles hu
    · exact hs.locked hold u call handles hu
  pending := hs.pending
  cufhepp := hs.cufhepp

/-- A thread that leaves for a place outside `ensureStarpu` and `submit`. -/
theorem System.Keys.leave {useCufhepp : Bool} {s : System Tid Key N V} (hs : s.Keys useCufhepp)
    (t : Tid) (pc : Pc Key)
    (hout : ¬ pc.Entered) (hshut : pc ≠ .shuttingDown) : (s.goto t pc).Keys useCufhepp := by
  refine hs.goto ?_ hshut ?_
  · cases pc with
    | ensuring | binding | submitting => exact absurd trivial hout
    | _ => trivial
  · rintro - call handles rfl
    exact absurd trivial hout

/-! ### The steps -/

variable [DecidableEq N] [Inhabited V]

/-- The buffers of a task are at least its output. -/
theorem submits_insertCall (submission : Submission) {handles : List Handle}
    (hall : handles.length = submission.accesses.length) :
    (submission.insertCall handles 0 : LibraryCall Key).Submits = true := by
  rcases handles with _ | ⟨handle, rest⟩
  · simp [Submission.accesses] at hall
  · simp [Submission.insertCall, Submission.accesses, LibraryCall.Submits]

theorem not_submits_insertCall (submission : Submission) (handles : List Handle) {status : Int}
    (h : status ≠ 0) :
    (submission.insertCall handles status : LibraryCall Key).Submits = false := by
  unfold Submission.insertCall
  cases (submission.accesses.map Access.mode).zip handles with
  | nil => rfl
  | cons buffer rest => simp [LibraryCall.Submits, h]

/-- A task is submitted whose key is bound. -/
theorem System.Keys.accepted {useCufhepp : Bool} {s : System Tid Key N V}
    (hs : s.Keys useCufhepp) (tfhe : TFHE Key V) (main : N) {t : Tid} {call : GateCall Key}
    {handles : List Handle} (hpc : (s.threads t).pc = .submitting call handles)
    (hall : handles.length = call.submission.accesses.length) (task : IyokanStarpuTask)
    (output : Handle) :
    ((s.ran tfhe main ((s.world.call (call.submission.insertCall handles 0)).addTask
      output)).accepted t call task).Keys useCufhepp := by
  have hpcs : ∀ u, (((s.ran tfhe main ((s.world.call (call.submission.insertCall handles
      0)).addTask output)).accepted t call task).threads u).pc = (s.threads u).pc ∨
      (((s.ran tfhe main ((s.world.call (call.submission.insertCall handles
        0)).addTask output)).accepted t call task).threads u).pc = .idle ∨
      (((s.ran tfhe main ((s.world.call (call.submission.insertCall handles
        0)).addTask output)).accepted t call task).threads u).pc = .waiting task := by
    intro u
    by_cases hut : u = t
    · subst hut
      refine Or.inr ?_
      by_cases hcapture : (s.threads u).capture.captureActive = true <;>
        simp [System.accepted, System.ran, hcapture]
    · exact Or.inl (by simp [System.accepted, System.ran, hut])
  refine ⟨?_, ?_, ?_, ?_, ?_⟩
  · have hlength : ((s.ran tfhe main ((s.world.call (call.submission.insertCall handles
        0)).addTask output)).runtime.tasks.length) = s.runtime.tasks.length + 1 := by
      simp [System.ran, World.call, World.addTask, serve_length, submits_insertCall _ hall]
    show ((s.ran tfhe main _).runtime.tasks.length) = (s.submitted ++ [call]).length
    rw [hlength, hs.length]
    simp
  · intro u
    rcases hpcs u with h | h | h <;> rw [h]
    · exact hs.pcs u
    all_goals trivial
  · intro hlock u c hs' hu
    have hold : ¬ s.Unlocked := by
      intro h
      refine hlock fun v => ?_
      rcases hpcs v with hv | hv | hv <;> rw [hv]
      · exact h v
      all_goals simp
    rcases hpcs u with h | h | h <;> rw [h] at hu
    · exact hs.locked hold u c hs' hu
    all_goals exact absurd hu (by simp)
  · intro i c key hi hkey hnot
    have hnot' : i ∉ s.runtime.finished := by rwa [← foldl_serve_finished]
    show s.world.currentEvalKey = some key
    rcases getElem?_append_singleton hi with hold | ⟨-, rfl⟩
    · exact hs.pending i c key hold hkey hnot'
    · have ht := hs.pcs t
      rw [hpc] at ht
      exact ht key hkey
  · intro hinit
    obtain ⟨huse, key, hkey, hwith⟩ := hs.cufhepp hinit
    exact ⟨huse, key, hkey, (initializedWith_append [_] rfl
      (by simp [Submission.insertCall])).trans hwith⟩

variable [DecidableEq Key] {tfhe : TFHE Key V} {main : N} {useCufhepp : Bool}

theorem System.Keys.step {s s' : System Tid Key N V} (hs : s.Keys useCufhepp)
    (h : Step tfhe main useCufhepp s s') : s'.Keys useCufhepp := by
  have hask : ∀ t task state, (s.ask t task state).Keys useCufhepp := by
    intro t task state
    unfold System.ask
    split_ifs
    · exact (hs.called _ (by simp)).leave _ _ (by simp [Pc.Entered]) (by simp)
    · exact hs.leave _ _ (by simp [Pc.Entered]) (by simp)
  cases h with
  | configure t cpuWorkers cudaDevices r w hpc hlock hexec =>
      exact hs.ran tfhe main (keepsKeys_configure hexec)
  | prepare t key hpc => exact hs.goto (by simp [Pc.Keys]) (by simp) (by simp)
  | call t call hpc => exact hs.goto (by simp [Pc.Keys]) (by simp) (by simp)
  | ensure t key next answers r w hpc hexec =>
      have hnext := hs.pcs t
      rw [hpc] at hnext
      have hran := hs.ran tfhe main (keepsKeys_ensureStarpuRuntime hexec)
      rcases r with text | ⟨⟩
      · exact hran.leave _ _ (by simp [Pc.Entered]) (by simp)
      · cases key with
        | some key => exact hran.goto hnext (by simp) (by simp)
        | none =>
            cases next with
            | none => exact hran.leave _ _ (by simp [Pc.ensured, Pc.Entered]) (by simp [Pc.ensured])
            | some call =>
                have hfree : call.evalKey = none := hnext call rfl
                refine hran.goto ?_ (by simp [Pc.ensured]) ?_
                · intro key hkey
                  exact absurd (hfree.symm.trans hkey) (by simp)
                · intro _ call' handles hcall
                  injection hcall with hcall
                  rw [← hcall, hfree]
  | bind t key next answers r w hpc hlock hexec =>
      by_cases haccepts : s.world.Accepts key
      · rw [exec_bindEvalKey_accepted useCufhepp answers haccepts] at hexec
        obtain ⟨rfl, rfl⟩ := Prod.mk.injEq .. ▸ hexec
        obtain ⟨hbound, hkey⟩ := hs.bound tfhe main answers haccepts
        have hnext := hs.pcs t
        rw [hpc] at hnext
        refine hbound.goto ?_ ?_ ?_
        · cases next with
          | none => trivial
          | some call =>
              intro k hk
              rw [hnext call rfl] at hk
              exact hkey.trans hk
        · cases next <;> simp [Pc.ensured]
        · exact fun hlocked => absurd hlock hlocked
      · rw [exec_bindEvalKey_rejected useCufhepp answers haccepts] at hexec
        obtain ⟨rfl, rfl⟩ := Prod.mk.injEq .. ▸ hexec
        exact (hs.ran tfhe main (keepsKeys_refl s.world)).leave _ _ (by simp [Pc.Entered]) (by simp)
  | handleFor t call handles access handle w hpc haccess hexec =>
      have hkeeps := keepsKeys_handleFor hexec
      have hcall := hs.pcs t
      rw [hpc] at hcall
      refine (hs.ran tfhe main hkeeps).goto ?_ (by simp) ?_
      · intro key hkey
        exact hkeeps.currentEvalKey.trans (hcall key hkey)
      · intro hlocked call' handles' hsame
        injection hsame with hsame
        rw [← hsame]
        exact hs.locked hlocked t call handles hpc
  | insert t call handles answers task w hpc hall hclean hexec =>
      rw [exec_insertTask] at hexec
      split_ifs at hexec with hinsert
      · obtain ⟨-, rfl⟩ := Prod.mk.injEq .. ▸ hexec
        rw [hinsert]
        exact hs.accepted tfhe main hpc hall task _
      · exact absurd (Prod.mk.inj hexec).1 (by simp)
  | refuse t call handles answers text w hpc hall hexec =>
      rw [exec_insertTask] at hexec
      split_ifs at hexec with hinsert
      · exact absurd (Prod.mk.inj hexec).1 (by simp)
      · obtain ⟨-, rfl⟩ := Prod.mk.injEq .. ▸ hexec
        exact (hs.ran tfhe main (keepsKeys_call s.world
          (not_submits_insertCall call.submission handles hinsert)
          (by simp [Submission.insertCall]))).leave _ _ (by simp [Pc.Entered]) (by simp)
  | completed task w hfinished hexec =>
      obtain ⟨-, rfl⟩ := Prod.mk.injEq .. ▸ hexec
      exact hs.ran tfhe main ⟨rfl, rfl, rfl, submitsNothing_of_eq rfl⟩
  | waited t task state hpc hstate hfinished => exact hask t task state
  | synchronizeOutput t task state hpc hstate => exact hask t task state
  | acquired t task count state hpc hstate hclean hacquired =>
      have := (hs.called (.dataRelease state.output) (by simp)).leave t
        .idle (by simp [Pc.Entered]) (by simp)
      exact this.same rfl (fun _ => rfl) rfl rfl (Finset.Subset.refl _)
  | failed t task count error hpc herror =>
      have := hs.leave t .idle (by simp [Pc.Entered]) (by simp)
      exact ⟨this.length, this.pcs, this.locked, this.pending, this.cufhepp⟩
  | beginCapture t capture hpc hcapture =>
      have := hs.leave t .idle (by simp [Pc.Entered]) (by simp)
      refine this.same rfl (fun u => ?_) rfl rfl (Finset.Subset.refl _)
      by_cases hut : u = t <;> simp [System.goto, hut]
  | endCapture t token capture hpc hcapture =>
      have := hs.leave t .idle (by simp [Pc.Entered]) (by simp)
      refine this.same rfl (fun u => ?_) rfl rfl (Finset.Subset.refl _)
      by_cases hut : u = t <;> simp [System.goto, hut]
  | synchronizeCapture t task hpc hcapture => exact hs.leave _ _ (by simp [Pc.Entered]) (by simp)
  | hostWrite t place v hpc hidle =>
      refine hs.same rfl (fun _ => rfl) rfl ?_ ?_
      · unfold System.hostWrite
        cases s.world.find place <;> rfl
      · unfold System.hostWrite
        cases s.world.find place <;> exact Finset.Subset.refl _
  | mark t place handle hpc hfind =>
      exact (hs.called _ (by simp)).leave _ _ (by simp [Pc.Entered]) (by simp)
  | marked t place handle count hpc hacquired =>
      have := (hs.called (.dataRelease handle) (by simp)).leave t
        .idle (by simp [Pc.Entered]) (by simp)
      exact this.same rfl (fun _ => rfl) rfl rfl (Finset.Subset.refl _)
  | unmarked t place handle count hpc => exact hs.leave _ _ (by simp [Pc.Entered]) (by simp)
  | markUnregistered t place hpc hfind =>
      exact hs.same rfl (fun _ => rfl) rfl rfl (Finset.Subset.refl _)
  | work r hstep hrunning hmain =>
      exact hs.same rfl (fun _ => rfl) rfl hstep.tasks_eq hstep.finished_subset

theorem System.Keys.lifeStep {s s' : System Tid Key N V} (hs : s.Keys useCufhepp)
    (h : LifeStep tfhe main useCufhepp s s') : s'.Keys useCufhepp := by
  cases h with
  | step _ hstep => exact hs.step hstep
  | shutdown t hpc hothers hlock =>
      refine ⟨hs.length, ?_, ?_, hs.pending, hs.cufhepp⟩
      · intro u
        rw [threads_goto]
        split_ifs
        · trivial
        · exact hs.pcs u
      · intro _ u call handles hu
        rw [threads_goto] at hu
        split_ifs at hu
        exact absurd (show (s.threads u).pc.Entered by rw [hu]; trivial) (hothers u)
  | shutDown t w hpc hexec hwait =>
      have hall := fun hrunning => hwait (waits_of_shutdown hexec hrunning)
      rw [exec_shutdownIyokanStarpu] at hexec
      obtain ⟨-, rfl⟩ := Prod.mk.injEq .. ▸ hexec
      have hran : (s.ran tfhe main (if s.world.starpuRunning then s.world.shutdown useCufhepp
          else s.world)).Keys useCufhepp := by
        by_cases hrunning : s.world.starpuRunning = true
        · rw [if_pos hrunning]
          exact hs.shutDown tfhe main hpc (hall hrunning)
        · rw [if_neg hrunning]
          exact hs.ran tfhe main (keepsKeys_refl s.world)
      have hmemory : System.Keys useCufhepp { s.ran tfhe main (if s.world.starpuRunning then
          s.world.shutdown useCufhepp else s.world) with memory := s.hostValue main } :=
        hran.same rfl (fun _ => rfl) rfl rfl (Finset.Subset.refl _)
      exact hmemory.leave _ _ (by simp [Pc.Entered]) (by simp)

theorem System.Keys.run {s s' : System Tid Key N V} (hs : s.Keys useCufhepp)
    (h : Relation.ReflTransGen (LifeStep tfhe main useCufhepp) s s') : s'.Keys useCufhepp := by
  induction h with
  | refl => exact hs
  | tail _ hstep ih => exact ih.lifeStep hstep

/-- A thread that waits for the lock with a second key is turned away, and nothing else
happens in that step. -/
theorem second_key_rejected {s s' : System Tid Key N V} {t : Tid} {key bound : Key}
    {next : Option (GateCall Key)} (hpc : (s.threads t).pc = .binding key next)
    (hbound : s.world.currentEvalKey = some bound) (hne : key ≠ bound)
    (h : LifeStep tfhe main useCufhepp s s') :
    (s'.threads t).pc = .binding key next ∨ ((s'.threads t).pc = .idle ∧
      s'.submitted = s.submitted ∧ s'.runtime = s.runtime ∧ s'.world = s.world) := by
  have hgoto : ∀ {s₀ : System Tid Key N V} {u : Tid} {pc pc' : Pc Key},
      s₀.threads = s.threads → (s.threads u).pc = pc' → pc' ≠ .binding key next →
      ((s₀.goto u pc).threads t).pc = .binding key next := by
    rintro s₀ u pc pc' hsame rfl hu
    have hut : t ≠ u := by
      rintro rfl
      exact hu hpc
    rw [threads_goto, if_neg hut, hsame, hpc]
  have hupdate : ∀ {u : Tid} {pc' : Pc Key} (thread : Thread Key), (s.threads u).pc = pc' →
      pc' ≠ .binding key next → (Function.update s.threads u thread t).pc = .binding key next := by
    rintro u pc' thread rfl hu
    have hut : t ≠ u := by
      rintro rfl
      exact hu hpc
    rw [Function.update_of_ne hut, hpc]
  have hask : ∀ {u : Tid} {pc' : Pc Key} (task : IyokanStarpuTask) (state : TaskState),
      (s.threads u).pc = pc' → pc' ≠ .binding key next →
      ((s.ask u task state).threads t).pc = .binding key next := by
    intro u pc' task state hu hne'
    unfold System.ask
    split_ifs <;> exact hgoto rfl hu hne'
  cases h with
  | shutdown u hpc' => exact Or.inl (hgoto rfl hpc' (by simp))
  | shutDown u w hpc' => exact Or.inl (hgoto rfl hpc' (by simp))
  | step _ hstep =>
      cases hstep with
      | configure | completed | hostWrite | markUnregistered | work => exact Or.inl hpc
      | prepare u _ hpc' | call u _ hpc' | ensure u _ _ _ _ _ hpc' | handleFor u _ _ _ _ _ hpc'
        | refuse u _ _ _ _ _ hpc' | acquired u _ _ _ hpc' | failed u _ _ _ hpc'
        | synchronizeCapture u _ hpc' | mark u _ _ hpc' | marked u _ _ _ hpc'
        | unmarked u _ _ _ hpc' => exact Or.inl (hgoto rfl hpc' (by simp))
      | waited u _ _ hpc' | synchronizeOutput u _ _ hpc' =>
          exact Or.inl (hask _ _ hpc' (by simp))
      | insert u _ _ _ _ _ hpc' => exact Or.inl (hupdate _ hpc' (by simp))
      | beginCapture u _ hpc' | endCapture u _ _ hpc' => exact Or.inl (hupdate _ hpc' (by simp))
      | bind u k n answers r w hpc' hlock hexec =>
          by_cases hut : t = u
          · subst hut
            rw [hpc] at hpc'
            injection hpc' with hk hn
            subst hk
            have hreject : ¬ s.world.Accepts key := by
              rintro (h | h)
              · exact absurd (h.symm.trans hbound) (by simp)
              · exact hne (Option.some.inj (h.symm.trans hbound))
            rw [exec_bindEvalKey_rejected useCufhepp answers hreject] at hexec
            obtain ⟨rfl, rfl⟩ := Prod.mk.injEq .. ▸ hexec
            refine Or.inr ⟨by rw [threads_goto, if_pos rfl], rfl, ?_, rfl⟩
            simp [System.goto, System.ran]
          · refine Or.inl ?_
            rw [threads_goto, if_neg hut]
            exact hpc

/-- **Every codelet that bootstraps finds the key its call was given**, a thread with a
second key is turned away, and cuFHEpp has the bound key. -/
theorem key_consistent {memory : Place → V} {s : System Tid Key N V}
    (hrun : Relation.ReflTransGen (LifeStep tfhe main useCufhepp) (System.start main memory) s) :
    (∀ i call key, s.submitted[i]? = some call → call.evalKey = some key →
      s.runtime.Running i → s.world.currentEvalKey = some key) ∧
    (∀ t key next bound s', (s.threads t).pc = .binding key next →
      s.world.currentEvalKey = some bound → key ≠ bound → LifeStep tfhe main useCufhepp s s' →
      (s'.threads t).pc = .binding key next ∨ ((s'.threads t).pc = .idle ∧
        s'.submitted = s.submitted ∧ s'.runtime = s.runtime ∧ s'.world = s.world)) ∧
    (s.world.cufheppInitialized = true →
      ∃ key, s.world.currentEvalKey = some key ∧ s.world.initializedWith = some key) := by
  have hs := (keys_start useCufhepp main memory).run hrun
  refine ⟨?_, ?_, fun hinit => (hs.cufhepp hinit).2⟩
  · intro i call key hi hkey hrunning
    exact hs.pending i call key hi hkey hrunning.2
  · intro t key next bound s' hpc hbound hne hstep
    exact second_key_rejected hpc hbound hne hstep

end Threads

/-! ### A gate that runs -/

/-- Bits in the clear: a gate is the sign of its linear combination, read modulo 8. -/
def clearTFHE {Key : Type} : TFHE Key Bool where
  homGate caSign cbSign offset _ left right :=
    0 < Int.bmod (caSign * (if left then 1 else -1) + cbSign * (if right then 1 else -1)
      + offset) 8
  negate input := !input
  homMUX _ select whenTrue whenFalse := if select then whenTrue else whenFalse
  cmuxFFT select whenTrue whenFalse := if select then whenTrue else whenFalse
  homMUXwoSE _ select whenTrue whenFalse := if select then whenTrue else whenFalse

example : clearTFHE.binaryGate .XOR () true false = true := by decide

/-- The task of a first call runs and cuFHEpp is initialised, when a second thread comes with
another key. -/
theorem key_consistent_and : ∃ s s' : System Bool Bool Unit Bool,
    s.submitted[0]? = some (.binaryGate .AND 2 0 1 true) ∧ s.runtime.Running 0 ∧
      s.world.currentEvalKey = some true ∧ s.world.initializedWith = some true ∧
      (s.threads true).pc = .binding false none ∧ LifeStep clearTFHE () true s s' ∧
      (s'.threads true).pc = .idle ∧ s'.submitted = s.submitted ∧ s'.world = s.world := by
  have hrun : ∃ s : System Bool Bool Unit Bool,
      Relation.ReflTransGen (LifeStep clearTFHE () true) (System.start () fun _ => true) s ∧
        s.submitted[0]? = some (.binaryGate .AND 2 0 1 true) ∧ s.runtime.Running 0 ∧
        s.world.cufheppInitialized = true ∧ (s.threads true).pc = .binding false none ∧
        ∃ s', LifeStep clearTFHE () true s s' ∧ (s'.threads true).pc = .idle := by
    refine reach_head (.step _ _ (.call _ false (.binaryGate .AND 2 0 1 true) rfl)) ?_
    refine reach_head (.step _ _ (.ensure _ false (some true) (some _) {} (.ok ⟨⟩) _ rfl rfl)) ?_
    refine reach_head (.step _ _ (.prepare _ true false rfl)) ?_
    refine reach_head (.step _ _ (.ensure _ true (some false) none {} (.ok ⟨⟩) _ rfl rfl)) ?_
    refine reach_head (.step _ _ (.bind _ false true (some _) { cudaWorkers := 1, cudaDevices := 1 }
      (.ok ⟨⟩) _ rfl (fun u => ?_) rfl)) ?_
    · cases u
      · exact (nofun : (Pc.binding true _ : Pc Bool) ≠ .shuttingDown)
      · exact (nofun : (Pc.binding false _ : Pc Bool) ≠ .shuttingDown)
    refine reach_head (.step _ _ (.handleFor _ false _ _ ⟨.W, .tlwe, 2⟩ 0 _ rfl rfl rfl)) ?_
    refine reach_head (.step _ _ (.handleFor _ false _ _ ⟨.R, .tlwe, 0⟩ 1 _ rfl rfl rfl)) ?_
    refine reach_head (.step _ _ (.handleFor _ false _ _ ⟨.R, .tlwe, 1⟩ 2 _ rfl rfl rfl)) ?_
    refine reach_head (.step _ _ (.insert _ false _ _ {} 0 _ rfl rfl
      (fun _ _ => List.not_mem_nil) rfl)) ?_
    refine reach_head (.step _ _ (.work _ _ (.start _ 0 _ () false rfl (Finset.notMem_empty 0)
      (fun _ _ h => absurd h (Nat.not_lt_zero _)) (by
        rintro h (_ | ⟨_, _ | ⟨_, ⟨⟩⟩⟩) <;> rfl)) rfl
      (fun _ h => absurd h List.not_mem_nil))) ?_
    refine ⟨_, .refl, rfl, ⟨Finset.mem_insert_self 0 ∅, Finset.notMem_empty 0⟩, rfl, rfl, _,
      .step _ _ (.bind _ true false none {} (.error _) _ rfl (fun u => ?_) rfl), rfl⟩
    cases u
    · exact (nofun : (Pc.waiting 0 : Pc Bool) ≠ .shuttingDown)
    · exact (nofun : (Pc.binding false _ : Pc Bool) ≠ .shuttingDown)
  obtain ⟨s, hreach, hcall, hrunning, hinit, hbinding, s', hstep, hidle⟩ := hrun
  obtain ⟨hfound, hrejected, hcufhepp⟩ := key_consistent hreach
  have hbound := hfound 0 _ true hcall rfl hrunning
  obtain ⟨key, hkey, hwith⟩ := hcufhepp hinit
  obtain rfl := Option.some.inj (hkey.symm.trans hbound)
  obtain ⟨-, hsubmitted, -, hworld⟩ :=
    (hrejected true false none true s' hbinding hbound (by decide) hstep).resolve_left
      (by simp [hidle])
  exact ⟨s, s', hcall, hrunning, hbound, hwith, hbinding, hstep, hidle, hsubmitted, hworld⟩

end Tangor.Iyokan
