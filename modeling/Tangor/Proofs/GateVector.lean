/-
Every schedule computes what the gate vector computes gate by gate.

The gate vector has a meaning without any task: an entry is a function of the slots of
its operands, and overwrites the slots of its outputs (`runGate`).  Which function that
is, the name says; nothing is known of the function itself.

An entry of one of the eleven supported names becomes one task, and the task does to the
slots what the entry means (`submitGate_meaning`).  So the tasks in the order of their
submission are the gate vector, and so is, by `MainInv`, every other schedule.  An entry
with another name is passed over, and then the slot it should write keeps its content
(`fullAdder_not_scheduleIndependent`).
-/
import Tangor.Proofs.Placement

namespace Tangor

open YosysJSONparser TaskGraph Fallible

variable {V N : Type*}

/-! ### What a gate vector means -/

/-- The nets an entry reads: a full adder and the multiplexers have a third operand, and with
`USE_M12` so do AOI3 and OAI3. -/
def YosysJSONparser.GateStruct.operands (useM12 : Bool) (g : GateStruct) : List Nat :=
  if g.name = "NOT" then [g.in0]
  else if g.name ∈ ["MUX", "NMUX", "fa"] ∨ useM12 ∧ g.name ∈ ["AOI3", "OAI3"] then
    [g.in0, g.in1, g.in2]
  else [g.in0, g.in1]

/-- The nets an entry writes: an adder has the sum and the carry. -/
def YosysJSONparser.GateStruct.outs (g : GateStruct) : List Nat :=
  if g.name ∈ ["fa", "ha"] then [g.out0, g.out1] else [g.out0]

section Meaning

variable (useM12 : Bool) (slot : Nat → Slot) (function : String → Nat → List V → V)

/-- One gate: each output becomes the function the name stands for, of the operands before. -/
def runGate (σ : Slot → V) (g : GateStruct) : Slot → V :=
  g.outs.zipIdx.foldl (fun τ out => Function.update τ (slot out.1)
    (function g.name out.2 ((g.operands useM12).map fun id => σ (slot id)))) σ

/-- The gate vector, one gate at a time. -/
def runGateVector (gates : List GateStruct) (σ : Slot → V) : Slot → V :=
  gates.foldl (runGate useM12 slot function) σ

end Meaning

/-- The name of the gate a codelet is for. -/
def Codelet.gateName : Codelet → String
  | .clHomNAND => "NAND"
  | .clHomNOR => "NOR"
  | .clHomXNOR => "XNOR"
  | .clHomAND => "AND"
  | .clHomOR => "OR"
  | .clHomXOR => "XOR"
  | .clHomANDNY => "ANDNY"
  | .clHomANDYN => "ANDYN"
  | .clHomORNY => "ORNY"
  | .clHomORYN => "ORYN"
  | .clHomNOT => "NOT"
  | .clHomMUX => "MUX"
  | .clHomNMUX => "NMUX"

/-- The codelets when the gates are these functions of their operands.  A multiplexer's
operands are in the order of the pins `A`, `B`, `S`, and its codelet takes the select first and
then the operand for a set select. -/
def Codelet.named (function : String → Nat → List V → V) : Codelet → List V → V
  | .clHomMUX, [s, b, a] => function "MUX" 0 [a, b, s]
  | .clHomNMUX, [s, b, a] => function "NMUX" 0 [a, b, s]
  | codelet, operands => function codelet.gateName 0 operands

/-- Every net of a gate is looked up in one slot. -/
def Resolved (useM12 : Bool) (bc : ParsedBC) : Prop :=
  ∀ g ∈ bc.gateVector, ∀ id ∈ g.outs ++ g.operands useM12, ∀ bitname,
    searchPointer id bc bitname = .ok (slotOf bc id)

/-- No gate reads a slot it writes. -/
def NoSelfRead (useM12 : Bool) (bc : ParsedBC) : Prop :=
  ∀ g ∈ bc.gateVector, ∀ out ∈ g.outs, ∀ id ∈ g.operands useM12, slotOf bc out ≠ slotOf bc id

/-- The builder returns, and in every run of its tasks every valid copy of a slot, once they are
waited for, and every element of the result are what the gate vector leaves there. -/
def ScheduleIndependent [DecidableEq N] (useM12 : Bool) (bc : ParsedBC)
    (function : String → Nat → List V → V) (main : N) (σ : Slot → V) : Prop :=
  ∃ submissions, starpuBuildGraph useM12 bc = .ok submissions ∧
    ∀ s, Relation.ReflTransGen (MainStep (Codelet.named function) main (cipheroutHandle bc))
        (MainState.start main σ (insertedTasks submissions)) s →
      (s.Waited → ∀ slot, ∀ n ∈ s.runtime.valid slot, s.runtime.copies slot n
        = runGateVector useM12 (slotOf bc) function bc.gateVector σ slot) ∧
      ∀ result, s.phase = .written result → result
        = (cipheroutHandle bc).map (runGateVector useM12 (slotOf bc) function bc.gateVector σ)

/-- Without flip-flops the nets that have an element of a vector are looked up in one slot. -/
theorem resolved_of_mem {useM12 : Bool} {bc : ParsedBC} (hq : bc.dffQVector = [])
    (hd : bc.dffDVector = [])
    (hmem : ∀ g ∈ bc.gateVector, ∀ id ∈ g.outs ++ g.operands useM12,
      id ∈ bc.inputVector ∨ id ∈ bc.wireVector ∨ id ∈ bc.outputVector) : Resolved useM12 bc := by
  intro g hg id hid bitname
  obtain ⟨slot, hslot⟩ := searchPointer_total hq hd (hmem g hg id hid)
  rw [slotOf_eq hslot, hslot]

/-! ### One gate and its task -/

/-- The net an entry has at a pin. -/
def YosysJSONparser.GateStruct.conn (g : GateStruct) : Pin → Nat
  | .A => g.in0
  | .B => g.in1
  | .S => g.in2

section Supported

variable {t : GateType} {g : GateStruct} (hname : g.name = t.gateName)
include hname

theorem operands_supported (useM12 : Bool) : g.operands useM12 = t.pins.map g.conn := by
  rw [GateStruct.operands, hname]
  cases t <;> cases useM12 <;> rfl

theorem outs_supported : g.outs = [g.out0] := by
  rw [GateStruct.outs, hname]
  cases t <;> rfl

/-- The codelet of a type computes the function of the type's name on the nets of its pins. -/
theorem named_codelet (function : String → Nat → List V → V) (v : Pin → V) :
    Codelet.named function t.codelet (t.order.map v) = function g.name 0 (t.pins.map v) := by
  rw [hname]
  cases t <;> rfl

/-- **A supported gate is submitted as one task, and the task does what the gate means.** -/
theorem submitGate_meaning {useM12 : Bool} {bc : ParsedBC}
    (hlook : ∀ id ∈ g.outs ++ g.operands useM12, ∀ bitname,
      searchPointer id bc bitname = .ok (slotOf bc id)) :
    ∃ task, submitGate useM12 bc g = .ok (.inserted task) ∧ task.target = slotOf bc g.out0 ∧
      (∀ source ∈ task.sources, ∃ id ∈ g.operands useM12, source = slotOf bc id) ∧
      ∀ (function : String → Nat → List V → V) (σ : Slot → V),
        (task.toTask (Codelet.named function)).apply σ
          = runGate useM12 (slotOf bc) function σ g := by
  rw [outs_supported hname, operands_supported hname] at hlook
  have hY := hlook g.out0 List.mem_cons_self "output"
  have hpin : ∀ p ∈ t.pins, ∀ bitname,
      searchPointer (g.conn p) bc bitname = .ok (slotOf bc (g.conn p)) :=
    fun p hp bitname => hlook _ (List.mem_cons_of_mem _ (List.mem_map_of_mem hp)) bitname
  refine ⟨⟨t.codelet, slotOf bc g.out0, t.order.map fun p => slotOf bc (g.conn p), t.priority⟩,
    ?_, rfl, ?_, ?_⟩
  · have hA := hpin .A (by cases t <;> decide) "in0"
    cases t with
    | NOT => exact submitGate_in1 hname hY hA rfl
    | MUX | NMUX =>
        exact submitGate_in3 hname hY hA rfl (hpin .B (by decide) "in1") (hpin .S (by decide) "in2")
    | _ => exact submitGate_in2 hname hY hA rfl (hpin .B (by decide) "in1")
  · intro source hsource
    obtain ⟨p, hp, rfl⟩ := List.mem_map.mp hsource
    rw [operands_supported hname]
    exact ⟨g.conn p, List.mem_map_of_mem (GateType.mem_order.mp hp), rfl⟩
  · intro function σ
    show Function.update σ (slotOf bc g.out0) (Codelet.named function t.codelet
      ((t.order.map fun p => slotOf bc (g.conn p)).map σ)) = _
    rw [List.map_map, named_codelet hname, runGate, outs_supported hname,
      operands_supported hname, List.map_map]
    rfl

end Supported

/-! ### The gate vector and its tasks -/

/-- The tasks of supported gates, in the order of their submission, are the gates. -/
theorem mapM_submitGate {useM12 : Bool} {bc : ParsedBC} {gates : List GateStruct}
    (hnames : ∀ g ∈ gates, ∃ t : GateType, g.name = t.gateName)
    (hlook : ∀ g ∈ gates, ∀ id ∈ g.outs ++ g.operands useM12, ∀ bitname,
      searchPointer id bc bitname = .ok (slotOf bc id))
    (hself : ∀ g ∈ gates, ∀ out ∈ g.outs, ∀ id ∈ g.operands useM12,
      slotOf bc out ≠ slotOf bc id) :
    ∃ submissions, gates.mapM (submitGate useM12 bc) = .ok submissions ∧
      (∀ task ∈ insertedTasks submissions, task.target ∉ task.sources) ∧
      ∀ (function : String → Nat → List V → V) (σ : Slot → V),
        finalSlots (Codelet.named function) (insertedTasks submissions) σ
          = runGateVector useM12 (slotOf bc) function gates σ := by
  induction gates with
  | nil => exact ⟨[], rfl, by simp [insertedTasks], fun _ _ => rfl⟩
  | cons g gates ih =>
      obtain ⟨submissions, hbuild, hseparate, hfinal⟩ := ih
        (fun h hh => hnames h (List.mem_cons_of_mem g hh))
        (fun h hh => hlook h (List.mem_cons_of_mem g hh))
        (fun h hh => hself h (List.mem_cons_of_mem g hh))
      obtain ⟨t, ht⟩ := hnames g List.mem_cons_self
      obtain ⟨task, hsubmit, htarget, hsources, hmeaning⟩ :=
        submitGate_meaning (V := V) ht (hlook g List.mem_cons_self)
      have htasks : insertedTasks (.inserted task :: submissions)
          = task :: insertedTasks submissions := rfl
      refine ⟨.inserted task :: submissions,
        mapM_cons_eq_ok.mpr ⟨_, _, hsubmit, hbuild, rfl⟩, ?_, ?_⟩
      · rw [htasks]
        refine List.forall_mem_cons.mpr ⟨fun hmem => ?_, hseparate⟩
        obtain ⟨id, hid, heq⟩ := hsources _ hmem
        rw [htarget] at heq
        exact hself g List.mem_cons_self g.out0 (by rw [outs_supported ht]; simp) id hid heq
      · intro function σ
        rw [htasks, finalSlots, List.map_cons, runAll_cons, hmeaning]
        exact hfinal function _

/-! ### Schedule independence -/

variable [DecidableEq N]

/-- **Whatever the schedule, every slot ends with what the gate vector leaves in it**, when
every gate is a supported one. -/
theorem schedule_independent {useM12 : Bool} {bc : ParsedBC}
    (hnames : ∀ g ∈ bc.gateVector, ∃ t : GateType, g.name = t.gateName)
    (hresolved : Resolved useM12 bc) (hself : NoSelfRead useM12 bc)
    (function : String → Nat → List V → V) (main : N) (σ : Slot → V) :
    ScheduleIndependent useM12 bc function main σ := by
  obtain ⟨submissions, hbuild, hseparate, hfinal⟩ := mapM_submitGate hnames hresolved hself
  refine ⟨submissions, hbuild, fun s hrun => ?_⟩
  have hs := MainInv.run hseparate hrun
  rw [← hfinal function σ]
  exact ⟨fun hwaited _ _ hn => hs.copies_eq hwaited hn, fun _ hresult => hs.written_eq hresult⟩

/-- A NAND of the two inputs and an inverter after it, parsed. -/
def nandNotBC : ParsedBC where
  inputVector := [2, 3]
  outputVector := [5]
  wireVector := [4]
  gateVector := [{ name := "NAND", in0 := 2, in1 := 3, out0 := 4 },
    { name := "NOT", in0 := 4, out0 := 5 }]

def nandNotTasks : List TaskInsert :=
  [⟨.clHomNAND, .cipherwire 0, [.cipherin 0, .cipherin 1], 1⟩,
    ⟨.clHomNOT, .cipherout 0, [.cipherwire 0], 0⟩]

/-- The gates on plain booleans. -/
def clearGate (name : String) (_output : Nat) (operands : List Bool) : Bool :=
  if name = "NAND" then !operands.all id else !operands.headD true

/-- The second gate reads what the first one writes, and they run on different memories: on a
device, and then on the CPU. -/
theorem exists_nandNot : ∃ s : MainState Bool Bool,
    Relation.ReflTransGen (MainStep (Codelet.named clearGate) false (cipheroutHandle nandNotBC))
      (MainState.start false (fun _ => true) nandNotTasks) s ∧
    s.runtime.place 0 = true ∧ s.runtime.place 1 = false ∧
      ∃ result, s.phase = .written result := by
  refine reach_head (.submit _ _ _) ?_
  refine reach_head (.submit _ _ _) ?_
  refine reach_head (.work _ _ _ (.transfer _ (.cipherin 0) false true rfl)) ?_
  refine reach_head (.work _ _ _ (.transfer _ (.cipherin 1) false true (by exact rfl))) ?_
  refine reach_head (.work _ _ _ (.start _ 0 _ true false rfl (Finset.notMem_empty 0)
    (fun j _ hj => absurd hj (Nat.not_lt_zero j)) ?_)) ?_
  · rintro _ (_ | ⟨_, _ | ⟨_, ⟨⟩⟩⟩)
    · exact Set.mem_insert true {false}
    · exact Set.mem_insert true {false}
  refine reach_head (.work _ _ _ (.finish _ 0 _ rfl
    ⟨Finset.mem_insert_self 0 ∅, Finset.notMem_empty 0⟩)) ?_
  refine reach_head (.built _) ?_
  refine reach_head (.work _ _ _ (.transfer _ (.cipherwire 0) true false (by exact rfl))) ?_
  refine reach_head (.work _ _ _ (.start _ 1 _ false false rfl (by decide) ?_ ?_)) ?_
  · intro j _ hj _ _
    obtain rfl : j = 0 := by omega
    exact Finset.mem_insert_self 0 ∅
  · rintro _ (_ | ⟨_, ⟨⟩⟩)
    exact Set.mem_insert false {true}
  refine reach_head (.work _ _ _ (.finish _ 1 _ rfl ⟨Finset.mem_insert_self 1 _, by decide⟩)) ?_
  refine reach_head (.waited _ (by decide)) ?_
  refine reach_head (.acquire _ _ _ (by exact rfl)) ?_
  exact ⟨_, .single (.write _), rfl, rfl, _, rfl⟩

theorem nandNot_built :
    starpuBuildGraph false nandNotBC = .ok (nandNotTasks.map .inserted) := by decide

/-- The result of that run is the one of the gate vector. -/
theorem nandNot_written : ∃ s : MainState Bool Bool,
    Relation.ReflTransGen (MainStep (Codelet.named clearGate) false (cipheroutHandle nandNotBC))
      (MainState.start false (fun _ => true) nandNotTasks) s ∧
    s.runtime.place 0 = true ∧ s.runtime.place 1 = false ∧ s.phase = .written [true] := by
  obtain ⟨s, hreach, hfirst, hsecond, result, hresult⟩ := exists_nandNot
  have hnames : ∀ g ∈ nandNotBC.gateVector, ∃ t : GateType, g.name = t.gateName :=
    List.forall_mem_cons.mpr ⟨⟨.NAND, rfl⟩, List.forall_mem_singleton.mpr ⟨.NOT, rfl⟩⟩
  have hself : NoSelfRead false nandNotBC := by
    unfold NoSelfRead
    decide
  obtain ⟨submissions, hsubmissions, hall⟩ := schedule_independent hnames
    (resolved_of_mem rfl rfl (by decide)) hself clearGate false fun _ => true
  obtain rfl := Except.ok.inj (nandNot_built.symm.trans hsubmissions)
  have hvalue := (hall s hreach).2 result hresult
  refine ⟨s, hreach, hfirst, hsecond, hresult.trans (congrArg Phase.written ?_)⟩
  rw [hvalue]
  decide

def fullAdderJson : Json :=
  .obj [("modules", .obj [("top", .obj [
    ("ports", .obj [
      ("a", Port.toJson ⟨.input, [2]⟩), ("b", Port.toJson ⟨.input, [3]⟩),
      ("ci", Port.toJson ⟨.input, [4]⟩), ("s", Port.toJson ⟨.output, [5]⟩),
      ("co", Port.toJson ⟨.output, [6]⟩)]),
    ("cells", .obj [("fa", .obj [("type", .str "$fa"), ("connections", .obj [
      ("A", connJson 2), ("B", connJson 3), ("C", connJson 4), ("X", connJson 6),
      ("Y", connJson 5)])])])])])]

def fullAdderBC : ParsedBC where
  inputVector := [2, 3, 4]
  outputVector := [5, 6]
  gateVector := [{ name := "fa", in0 := 2, in1 := 3, in2 := 4, out0 := 5, out1 := 6 }]
  dependencyVector := [0, 0, 0, 0, 0, 1, 1]

/-- A full adder is in the gate vector and gets no task, so no run writes its outputs. -/
theorem fullAdder_not_scheduleIndependent :
    ¬ ∀ (useM12 : Bool) (doc : Json) (bc : ParsedBC) (function : String → Nat → List Bool → Bool)
      (main : Unit) (σ : Slot → Bool), parsedBC useM12 doc = .ok bc → Resolved useM12 bc →
        NoSelfRead useM12 bc → ScheduleIndependent useM12 bc function main σ := by
  intro h
  have hparse : parsedBC false fullAdderJson = .ok fullAdderBC := by rfl
  have hself : NoSelfRead false fullAdderBC := by
    unfold NoSelfRead
    decide
  obtain ⟨submissions, hsubmissions, hall⟩ := h false fullAdderJson fullAdderBC
    (fun _ _ _ => true) () (fun _ => false) hparse (resolved_of_mem rfl rfl (by decide)) hself
  have hbuild : starpuBuildGraph false fullAdderBC = .ok [.printed ["GATE PARSE ERROR!"]] := by
    decide
  obtain rfl := Except.ok.inj (hbuild.symm.trans hsubmissions)
  obtain ⟨s, hrun, result, hresult⟩ := exists_written (Codelet.named fun _ _ _ => true) ()
    (cipheroutHandle fullAdderBC) [] (fun _ => false)
  have hinv := MainInv.run (fun task htask => absurd htask List.not_mem_nil) hrun
  have hkept := hinv.written_eq hresult
  have hmeant := (hall s hrun).2 result hresult
  exact absurd (hkept.symm.trans hmeant) (by decide)

end Tangor
