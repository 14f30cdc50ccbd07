/-
Wherever the tasks run, the result decrypts to what the netlist means.

StarPU may give every task to another worker.  A run of the program then leaves what the
tasks compute one by one under *some* assignment of workers to them, and which one depends on
the run (`PlacedInv`).  Under each assignment the slots solve the equations of the netlist, so
every slot ends with an encoding of the value of its net (`assigned_encodes`), and the
ciphertexts that are written decrypt to the values of the output nets (`result_decrypts`).
-/
import Tangor.Proofs.Workers

namespace Tangor

open YosysJSONparser TaskGraph Fallible

variable {V N : Type*} {runOn : Worker → Codelet → List V → V} {workers : Worker → Prop}
  {main : N} {outs : List Slot}

/-! ### Assignments -/

/-- Every task runs on one of the workers. -/
def Assigned (runOn : Worker → Codelet → List V → V) (workers : Worker → Prop)
    (tasks : List TaskInsert) (ts : List (Task Slot V)) : Prop :=
  List.Forall₂ (fun task t => ∃ worker, workers worker ∧ t = task.toTask (runOn worker)) tasks ts

namespace Assigned

variable {tasks : List TaskInsert} {ts : List (Task Slot V)}

theorem concat (h : Assigned runOn workers tasks ts) (task : TaskInsert) {worker : Worker}
    (hworker : workers worker) :
    Assigned runOn workers (tasks ++ [task]) (ts ++ [task.toTask (runOn worker)]) :=
  List.rel_append h (.cons ⟨worker, hworker, rfl⟩ .nil)

/-- Tasks that run somewhere open what they open anywhere. -/
theorem access_eq (h : Assigned runOn workers tasks ts) (gate : Codelet → List V → V) :
    ts.map Task.access = (tasks.map (TaskInsert.toTask gate)).map Task.access := by
  induction h with
  | nil => rfl
  | cons hhead _ ih =>
      obtain ⟨worker, -, rfl⟩ := hhead
      rw [List.map_cons, List.map_cons, List.map_cons, ih]
      rfl

theorem exists_worker (h : Assigned runOn workers tasks ts) {task : TaskInsert}
    (htask : task ∈ tasks) : ∃ worker, workers worker ∧ task.toTask (runOn worker) ∈ ts := by
  induction h with
  | nil => cases htask
  | cons hhead _ ih =>
      rcases List.mem_cons.mp htask with rfl | htask
      · obtain ⟨worker, hworker, rfl⟩ := hhead
        exact ⟨worker, hworker, List.mem_cons_self⟩
      · obtain ⟨worker, hworker, hmem⟩ := ih htask
        exact ⟨worker, hworker, List.mem_cons_of_mem _ hmem⟩

theorem frame (h : Assigned runOn workers tasks ts) {s : Slot}
    (hs : ∀ task ∈ tasks, task.target ≠ s) (σ : Slot → V) : runAll ts σ s = σ s := by
  refine runAll_frame ts σ ?_
  induction h with
  | nil => simp
  | cons hhead _ ih =>
      obtain ⟨worker, -, rfl⟩ := hhead
      intro t ht
      rcases List.mem_cons.mp ht with rfl | ht
      · exact hs _ List.mem_cons_self
      · exact ih (fun task htask => hs task (List.mem_cons_of_mem _ htask)) t ht

end Assigned

/-! ### A run of the program -/

/-- What the phase of `main` says about the runtime, with the tasks on workers. -/
def Phase.PlacedInv (runOn : Worker → Codelet → List V → V) (workers : Worker → Prop) (main : N)
    (outs : List Slot) (tasks : List TaskInsert) (r : Runtime Slot N V) : Phase V → Prop
  | .submitting rest => ∃ submitted, submitted ++ rest = tasks ∧
      Assigned runOn workers submitted r.tasks
  | .waiting => Assigned runOn workers tasks r.tasks
  | .syncing rest => Assigned runOn workers tasks r.tasks ∧
      (∀ i < r.tasks.length, i ∈ r.finished) ∧ ∀ slot ∈ outs, slot ∈ rest ∨ r.UpToDate main slot
  | .written result => Assigned runOn workers tasks r.tasks ∧
      result = outs.map (runAll r.tasks r.init)

/-- What every state of a run satisfies, whichever workers the tasks run on. -/
structure PlacedInv (runOn : Worker → Codelet → List V → V) (workers : Worker → Prop) (main : N)
    (outs : List Slot) (tasks : List TaskInsert) (σ : Slot → V) (s : MainState N V) : Prop where
  ok : s.runtime.OK
  init : s.runtime.init = σ
  phase : s.phase.PlacedInv runOn workers main outs tasks s.runtime

theorem placedInv_start (σ : Slot → V) (tasks : List TaskInsert) :
    PlacedInv runOn workers main outs tasks σ (MainState.start main σ tasks) where
  ok := Runtime.ok_fresh main σ
  init := rfl
  phase := ⟨[], rfl, .nil⟩

variable [DecidableEq N]

theorem Phase.PlacedInv.work {tasks : List TaskInsert} {r r' : Runtime Slot N V} {phase : Phase V}
    (hok : r.OK) (h : phase.PlacedInv runOn workers main outs tasks r) (hstep : r.Step r') :
    phase.PlacedInv runOn workers main outs tasks r' := by
  have htasks := hstep.tasks_eq
  cases phase with
  | submitting rest => rwa [Phase.PlacedInv, htasks]
  | waiting => rwa [Phase.PlacedInv, htasks]
  | syncing rest =>
      obtain ⟨hassigned, hdone, hsync⟩ := h
      refine ⟨htasks ▸ hassigned, ?_, ?_⟩
      · intro i hi
        exact hstep.finished_subset (hdone i (htasks ▸ hi))
      · intro slot hslot
        exact (hsync slot hslot).imp_right fun hup => hup.step hok hstep
  | written result => rwa [Phase.PlacedInv, htasks, hstep.init_eq]

theorem PlacedInv.step {tasks : List TaskInsert} {σ : Slot → V} {s s' : MainState N V}
    (hself : ∀ task ∈ tasks, task.target ∉ task.sources)
    (hs : PlacedInv runOn workers main outs tasks σ s)
    (h : PlacedStep runOn workers main outs s s') :
    PlacedInv runOn workers main outs tasks σ s' := by
  obtain ⟨worker, hworker, h⟩ := h
  obtain ⟨hok, hinit, hphase⟩ := hs
  cases h with
  | submit task rest r =>
      obtain ⟨submitted, hsplit, hassigned⟩ := hphase
      have hmem : task ∈ tasks := hsplit ▸ List.mem_append_right _ List.mem_cons_self
      refine ⟨hok.submit (hself task hmem), hinit, submitted ++ [task], ?_, ?_⟩
      · rw [List.append_assoc]
        exact hsplit
      · exact hassigned.concat task hworker
  | built r =>
      obtain ⟨submitted, hsplit, hassigned⟩ := hphase
      rw [List.append_nil] at hsplit
      exact ⟨hok, hinit, hsplit ▸ hassigned⟩
  | waited r hdone => exact ⟨hok, hinit, hphase, hdone, fun slot hslot => Or.inl hslot⟩
  | acquire slot rest r hmain =>
      obtain ⟨hassigned, hdone, hsync⟩ := hphase
      refine ⟨hok, hinit, hassigned, hdone, ?_⟩
      intro x hx
      rcases hsync x hx with hrest | hup
      · rcases List.mem_cons.mp hrest with rfl | hrest
        · refine Or.inr (hok.upToDate ?_ hmain)
          intro j t ht _
          exact hdone j (List.getElem?_eq_some_iff.mp ht).1
        · exact Or.inl hrest
      · exact Or.inr hup
  | write r =>
      obtain ⟨hassigned, hdone, hsync⟩ := hphase
      refine ⟨hok, hinit, hassigned, List.map_congr_left fun slot hslot => ?_⟩
      rcases hsync slot hslot with hnone | hup
      · exact absurd hnone List.not_mem_nil
      · exact hup.copy
  | work phase r r' hstep =>
      exact ⟨hok.step hstep, hstep.init_eq.trans hinit, hphase.work hok hstep⟩

/-- **The invariant of every run with workers.** -/
theorem PlacedInv.run {tasks : List TaskInsert} {σ : Slot → V} {s : MainState N V}
    (hself : ∀ task ∈ tasks, task.target ∉ task.sources)
    (h : Relation.ReflTransGen (PlacedStep runOn workers main outs)
      (MainState.start main σ tasks) s) :
    PlacedInv runOn workers main outs tasks σ s := by
  induction h with
  | refl => exact placedInv_start σ tasks
  | tail _ hstep ih => exact ih.step hself hstep

/-! ### The netlist -/

section Final

variable {n : Netlist} {bc : ParsedBC} {slot : Nat → Slot}

omit [DecidableEq N] in
/-- **Under every assignment the slots end with encodings of the values of their nets.** -/
theorem assigned_encodes {enc : V → Bool → Prop}
    (hgate : ∀ worker, workers worker → ∀ g ∈ n.gates, ∀ operands bits b,
      List.Forall₂ enc operands bits → g.type.codelet.meaning bits = some b →
      enc (runOn worker g.type.codelet operands) b)
    (hplaced : Placed n bc slot) (hcomb : n.Combinational) (honce : n.DrivenOnce)
    (hdriven : n.OperandsDriven) (hlisted : n.Listed) {σ : Slot → V} {x : Nat → Bool}
    (hin : ∀ i id, bc.inputVector[i]? = some id → enc (σ (.cipherin i)) (x id))
    {ts : List (Task Slot V)} (hassigned : Assigned runOn workers (n.tasks slot) ts) {id : Nat}
    {b : Bool} (hval : n.Value x id b) : enc (runAll ts σ (slot id)) b := by
  -- The effects do not matter here, so any will do.
  have hany : Straight ((n.tasks slot).map (TaskInsert.toTask fun _ _ => σ (.cipherin 0))) :=
    tasks_straight hplaced hcomb honce hdriven hlisted
  have hstraight : Straight ts := hany.of_access (hassigned.access_eq _)
  induction hval with
  | input hi =>
      obtain ⟨i, hget, hslot⟩ := hplaced.input _ hi
      rw [hslot, hassigned.frame]
      · exact hin i _ hget
      · intro task htask
        obtain ⟨g, hg, rfl⟩ := List.mem_map.mp htask
        exact hplaced.gate_not_input (Netlist.mem_gateBits (n.gatesInOrder_perm.mem_iff.mp hg))
  | register hq =>
      rw [hcomb] at hq
      exact absurd hq List.not_mem_nil
  | @gate g hg v hpins ih =>
      have hmem : g.insert slot ∈ n.tasks slot :=
        List.mem_map_of_mem (n.gatesInOrder_perm.mem_iff.mpr hg)
      obtain ⟨worker, hworker, htask⟩ := hassigned.exists_worker hmem
      have hsolve := hstraight.solves σ htask
      show enc (runAll ts σ ((g.insert slot).toTask (runOn worker)).target) _
      rw [hsolve]
      refine hgate worker hworker g hg _ (g.type.order.map v) _ ?_ (g.type.meaning_order v)
      show List.Forall₂ enc ((g.type.order.map fun p => slot (g.conn p)).map _) _
      rw [List.map_map, List.forall₂_map_left_iff, List.forall₂_map_right_iff, List.forall₂_same]
      exact fun p hp => ih p (GateType.mem_order.mp hp)

end Final

/-! ### The result -/

/-- The netlists the program computes: without flip-flops, every net driven once, every
output driven by a gate and listed once, and the gates listed after the drivers of their
operands. -/
structure Netlist.Compilable (n : Netlist) : Prop where
  combinational : n.Combinational
  once : n.DrivenOnce
  driven : n.OperandsDriven
  outputs : ∀ o ∈ n.outputBits, o ∈ n.gateBits
  nodup : n.outputBits.Nodup
  listed : n.Listed

section Result

variable {useM12 : Bool} {doc module : Json} {n : Netlist} {bc : ParsedBC}
  {submissions : List Submission} {x : Nat → Bool}

/-- **The written values encode the output nets**, for every encoding the codelets of the
netlist keep on every worker. -/
theorem written_encodes (hrep : Represents doc module n) (hparse : parsedBC useM12 doc = .ok bc)
    (hn : n.Compilable) {enc : V → Bool → Prop}
    (hgate : ∀ worker, workers worker → ∀ g ∈ n.gates, ∀ operands bits b,
      List.Forall₂ enc operands bits → g.type.codelet.meaning bits = some b →
      enc (runOn worker g.type.codelet operands) b)
    {σ : Slot → V} (hin : ∀ i id, bc.inputVector[i]? = some id → enc (σ (.cipherin i)) (x id))
    (hbuild : starpuBuildGraph useM12 bc = .ok submissions) {s : MainState N V}
    (hrun : Relation.ReflTransGen (PlacedStep runOn workers main (cipheroutHandle bc))
      (MainState.start main σ (insertedTasks submissions)) s)
    {result : List V} (hresult : s.phase = .written result) :
    List.Forall₂ (fun id v => ∃ b, n.Value x id b ∧ enc v b) bc.outputVector result := by
  obtain ⟨hcomb, honce, hdriven, houts, hnodup, hlisted⟩ := hn
  have hplaced := placed hrep hparse hcomb honce
  have hp := parsed_represents hrep hparse
  rw [build_placed hrep hparse hcomb honce hdriven, Except.ok.injEq] at hbuild
  rw [← hbuild, insertedTasks_inserted] at hrun
  have hany : Straight ((n.tasks (slotOf bc)).map
      (TaskInsert.toTask fun _ _ => σ (.cipherin 0))) :=
    tasks_straight hplaced hcomb honce hdriven hlisted
  have hself : ∀ task ∈ n.tasks (slotOf bc), task.target ∉ task.sources :=
    fun task htask => hany.noSelf _ (List.mem_map_of_mem htask)
  have hinv := PlacedInv.run hself hrun
  have hphase := hinv.phase
  rw [hresult] at hphase
  obtain ⟨hassigned, rfl⟩ := hphase
  rw [cipheroutHandle, List.map_map, List.forall₂_map_right_iff, hinv.init]
  refine List.forall₂_iff_get.mpr ⟨by simp, ?_⟩
  intro k hk hk'
  set id := bc.outputVector[k] with hid
  have hget : bc.outputVector[k]? = some id := List.getElem?_eq_getElem hk
  have hmem : id ∈ n.outputBits := (mem_outputVector hp).mp (List.mem_of_getElem? hget)
  obtain ⟨b, hb⟩ := hlisted.value hdriven x (List.mem_append_right _ (houts id hmem))
  have hencodes := assigned_encodes hgate hplaced hcomb honce hdriven hlisted hin hassigned hb
  rw [hplaced.cipherout hp hnodup hget (houts id hmem)] at hencodes
  exact ⟨b, hb, by simpa using hencodes⟩

/-- Without a negated multiplexer on the FPGA every codelet of the netlist is computed. -/
theorem computes_of_types {build : Build}
    (hnmux : build.useHoge = true → ∀ g ∈ n.gates, g.type ≠ .NMUX) (worker : Worker) {g : Gate}
    (hg : g ∈ n.gates) : worker.Computes build g.type.codelet := by
  intro hcodelet _ hfpga
  refine hnmux hfpga.1 g hg ?_
  cases ht : g.type with
  | NMUX => rfl
  | _ =>
      rw [ht] at hcodelet
      cases hcodelet

/-- **The written ciphertexts decrypt to the values of the output nets**, whichever workers
the tasks ran on, in whichever order, and wherever StarPU kept the copies. -/
theorem result_decrypts (hrep : Represents doc module n) (hparse : parsedBC useM12 doc = .ok bc)
    (hn : n.Compilable) {w m : Nat} (hw : 3 ≤ w) {lib : Libraries w m} {key : Fin m → BitVec w}
    {B : Int} (hlib : lib.Sound key B) (hB : 4 * B < μ w) {build : Build}
    (hnmux : build.useHoge = true → ∀ g ∈ n.gates, g.type ≠ .NMUX) {σ : Slot → TLWE w m}
    (hin : ∀ i id, bc.inputVector[i]? = some id → Encodes key (σ (.cipherin i)) (x id))
    (hbuild : starpuBuildGraph useM12 bc = .ok submissions)
    {s : MainState N (TLWE w m)} (hrun : Relation.ReflTransGen
      (PlacedStep (fun worker codelet => codelet.run lib build worker) build.Offers main
        (cipheroutHandle bc))
      (MainState.start main σ (insertedTasks submissions)) s)
    {result : List (TLWE w m)} (hresult : s.phase = .written result) :
    List.Forall₂ (fun id c => n.Value x id (decrypt key c)) bc.outputVector result := by
  have hwritten := written_encodes hrep hparse hn
    (fun worker _ g hg _ _ _ => run_encodes hw hlib hB (computes_of_types hnmux worker hg)) hin
    hbuild hrun hresult
  refine hwritten.imp fun id c hc => ?_
  obtain ⟨b, hb, hencodes⟩ := hc
  rwa [hencodes.decrypt hw]

end Result

/-! ### A run on the FPGA -/

/-- A program that runs every task on one worker. -/
theorem placed_of_steps {worker : Worker} (hworker : workers worker) {s s' : MainState N V}
    (h : Relation.ReflTransGen (MainStep (runOn worker) main outs) s s') :
    Relation.ReflTransGen (PlacedStep runOn workers main outs) s s' := by
  induction h with
  | refl => exact .refl
  | tail _ hstep ih => exact ih.tail ⟨worker, hworker, hstep⟩

/-- Built for the FPGA, without CUDA. -/
def hogeBuild : Build := ⟨true, false⟩

def clearRun (worker : Worker) (codelet : Codelet) : List (TLWE 5 1) → TLWE 5 1 :=
  codelet.run (clearLibraries clearKey) hogeBuild worker

/-- Both inputs set, and the select of the multiplexer not. -/
def setInputs (slot : Slot) : TLWE 5 1 := clear (decide (slot ≠ .cipherin 2))

theorem setInputs_encodes (i id : Nat) (hi : [2, 3, 4][i]? = some id) :
    Encodes clearKey (setInputs (.cipherin i)) (decide (id ≠ 4)) := by
  match i with
  | 0 | 1 | 2 =>
      obtain rfl := Option.some.inj hi
      exact encodes_of_near (by decide) (clear_near clearKey _)
  | _ + 3 => exact absurd hi (by simp)

theorem sharedNand_compilable : sharedNand.Compilable where
  combinational := rfl
  once := show List.Nodup _ by decide
  driven := sharedNand_driven
  outputs := by decide
  nodup := by decide
  listed := sharedNand_listed

/-- The two outputs, with the multiplexer on the FPGA. -/
theorem result_decrypts_sharedNand : ∃ (s : MainState Bool (TLWE 5 1)) (result : List (TLWE 5 1)),
    s.phase = .written result ∧ result.map (decrypt clearKey) = [true, true] := by
  have hn := sharedNand_compilable
  have hbuild := build_placed sharedNand_represents (sharedNand_parsed false) hn.combinational
    hn.once hn.driven
  obtain ⟨s, hrun, result, hresult⟩ := exists_written (clearRun ⟨0, false⟩) true _ _ setInputs
  have hplaced : Relation.ReflTransGen (PlacedStep clearRun hogeBuild.Offers true _) _ s :=
    placed_of_steps (by intro h; cases h) hrun
  have hall := result_decrypts sharedNand_represents (sharedNand_parsed false) hn (by decide)
    (clearLibraries_sound (by decide) clearKey) (by decide) (by decide) setInputs_encodes hbuild
    hplaced hresult
  obtain ⟨c, cs, hy, hrest, rfl⟩ := List.forall₂_cons_left_iff.mp hall
  obtain ⟨d, ds, hz, hend, rfl⟩ := List.forall₂_cons_left_iff.mp hrest
  rw [List.forall₂_nil_left_iff.mp hend] at hresult
  refine ⟨s, [c, d], hresult, ?_⟩
  obtain ⟨hy', hz'⟩ := sharedNand_value fun id => decide (id ≠ 4)
  rw [List.map_cons, List.map_singleton, hy.unique hn.once hy', hz.unique hn.once hz']
  rfl

end Tangor
