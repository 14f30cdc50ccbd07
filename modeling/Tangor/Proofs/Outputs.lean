/-
Which outputs are lost.

An output bit is written when a gate's task is routed to its slot.  Nothing copies an
input or a register to an output, and of several output bits on one net the lookup
returns the first.  So a netlist gets all its outputs exactly when each is a gate's
net and no net is listed twice, and with a flip-flop there is no run to speak of:
`outputsComputed_iff`.

That an unwritten slot is lost is shown on ciphertexts with a value that encodes
nothing, which is what a slot holds before it is written.
-/
import Tangor.Proofs.Compile

namespace Tangor

open YosysJSONparser TaskGraph Fallible

/-- After a run every output slot encodes the value of its net, whatever the
ciphertexts are, for all inputs and with the registers at 0. -/
def OutputsComputed (useM12 : Bool) (n : Netlist) (bc : ParsedBC) : Prop :=
  ∀ (V : Type) (enc : V → Bool → Prop) (gate : Codelet → List V → V) (file : List V)
    (valueInit homCONSTANTZERO : V) (x : Nat → Bool),
    ComputesGates enc gate → enc homCONSTANTZERO false →
    (∀ i id : Nat, bc.inputVector[i]? = some id → ∃ c : V, file[i]? = some c ∧ enc c (x id)) →
    ∀ k id, bc.outputVector[k]? = some id →
      ∃ final, executeGates useM12 bc gate (initialSlots file valueInit homCONSTANTZERO) = .ok final ∧
        OutputComputed n x enc final k id

/-! ### Runs that do not fail -/

/-- A gate vector that can be run can be built. -/
theorem build_of_execute {V : Type*} {useM12 : Bool} {bc : ParsedBC}
    {gate : Codelet → List V → V} {σ final : Slot → V}
    (h : executeGates useM12 bc gate σ = .ok final) :
    ∃ submissions, starpuBuildGraph useM12 bc = .ok submissions := by
  unfold executeGates at h
  refine mapM_exists ?_
  generalize bc.gateVector = gates at h ⊢
  induction gates generalizing σ with
  | nil => simp
  | cons g rest ih =>
      simp only [List.foldlM_cons, bind_eq_ok] at h
      obtain ⟨τ, hg, hrest⟩ := h
      intro g' hg'
      rcases List.mem_cons.mp hg' with rfl | hg'
      · unfold executeGate at hg
        split at hg
        · exact ⟨_, by assumption⟩
        · exact ⟨_, by assumption⟩
        · exact ⟨_, by assumption⟩
        · exact absurd hg (by simp)
      · exact ih hrest g' hg'

/-- With a gate and a flip-flop nothing can be built. -/
theorem no_dff_of_build {useM12 : Bool} {n : Netlist} {bc : ParsedBC}
    {submissions : List Submission} (hgates : bc.gateVector = n.gatesInOrder.map Gate.struct)
    (hbuild : starpuBuildGraph useM12 bc = .ok submissions) {g : Gate} (hg : g ∈ n.gates) :
    bc.dffQVector = [] := by
  have hmem : g.struct ∈ bc.gateVector := by
    rw [hgates]
    exact List.mem_map_of_mem (n.gatesInOrder_perm.mem_iff.mpr hg)
  obtain ⟨submission, -, hsub⟩ := mapM_mem hbuild hmem
  rcases submitGate_cases hsub with ⟨t, task, -, -, hsubmits⟩ | ⟨hnone, -⟩
  · exact searchPointer_dff hsubmits.target
  · exact absurd rfl (hnone g.type)

/-! ### Ciphertexts with a value that encodes nothing -/

/-- `none` encodes nothing. -/
def someEnc (c : Option Bool) (b : Bool) : Prop := c = some b

def someGate (codelet : Codelet) (operands : List (Option Bool)) : Option Bool :=
  codelet.meaning (operands.map fun c => c.getD false)

theorem someGate_computes : ComputesGates someEnc someGate := by
  intro codelet operands bits b hall hmeaning
  have hbits : operands.map (fun c => c.getD false) = bits := by
    clear hmeaning
    induction hall with
    | nil => rfl
    | cons hc _ ih => rw [List.map_cons, ih, show _ = some _ from hc, Option.getD_some]
  rw [someEnc, someGate, hbits, hmeaning]

/-! ### The outputs that are computed -/

section Necessary

variable {useM12 : Bool} {doc module : Json} {n : Netlist} {bc : ParsedBC}

/-- What the property says about ciphertexts with an empty value: the run does not fail,
and every output slot is written. -/
theorem OutputsComputed.written (h : OutputsComputed useM12 n bc) {k id : Nat}
    (hk : bc.outputVector[k]? = some id) :
    ∃ final, executeGates useM12 bc someGate
        (initialSlots (bc.inputVector.map fun _ => some false) none (some false)) = .ok final ∧
      final (.cipherout k) ≠ none := by
  obtain ⟨final, hrun, hcomputed⟩ := h (Option Bool) someEnc someGate
    (bc.inputVector.map fun _ => some false) none (some false) (fun _ => false)
    someGate_computes rfl
    (fun i id hi => ⟨some false, by rw [List.getElem?_map, hi]; rfl, rfl⟩) k id hk
  obtain ⟨b, hb⟩ := hcomputed.exists_value
  have henc : final (.cipherout k) = some b := hcomputed.encodes b hb
  exact ⟨final, hrun, by simp [henc]⟩

theorem OutputsComputed.combinational (h : OutputsComputed useM12 n bc)
    (hp : Parsed bc n.portReads n.cellReads) {k id : Nat} (hk : bc.outputVector[k]? = some id) :
    n.Combinational := by
  obtain ⟨final, hrun, hwritten⟩ := h.written hk
  obtain ⟨submissions, hbuild⟩ := build_of_execute hrun
  rcases List.eq_nil_or_concat n.gates with hnil | ⟨rest, g, hg⟩
  · -- Without a gate nothing is written.
    have hnone : n.gatesInOrder = [] := List.perm_nil.mp (hnil ▸ n.gatesInOrder_perm)
    rw [executeGates, gateVector_eq hp, hnone, List.map_nil, List.foldlM_nil, pure_eq_ok] at hrun
    exact absurd (congrFun hrun (.cipherout k)).symm (by simpa [initialSlots] using hwritten)
  · have hq := no_dff_of_build (gateVector_eq hp) hbuild (g := g) (by simp [hg])
    rw [hp.dffQ] at hq
    exact List.perm_nil.mp (hq ▸ n.dffQ_perm.symm)

/-- A written output slot is the one its net is looked up in, and a gate drives it. -/
theorem OutputsComputed.driven (h : OutputsComputed useM12 n bc)
    (hrep : Represents doc module n) (hparse : parsedBC useM12 doc = .ok bc)
    (hcomb : n.Combinational) (honce : n.DrivenOnce) (hdriven : n.OperandsDriven) {k id : Nat}
    (hk : bc.outputVector[k]? = some id) :
    id ∈ n.gateBits ∧ bc.outputVector.idxOf? id = some k := by
  have hplaced := placed hrep hparse hcomb honce
  obtain ⟨final, hrun, hwritten⟩ := h.written hk
  rw [execute_of_build _ (build_placed hrep hparse hcomb honce hdriven), insertedTasks_inserted,
    Except.ok.injEq] at hrun
  have hgate : ∃ g ∈ n.gates, slotOf bc g.y = .cipherout k := by
    by_contra hnone
    push Not at hnone
    rw [← hrun, finalSlots_unwritten _ hnone] at hwritten
    exact hwritten rfl
  obtain ⟨g, hg, hslot⟩ := hgate
  have hidx := hplaced.idxOf_of_cipherout (Netlist.mem_gateBits hg) hslot
  have hy : g.y = id := Option.some.inj ((getElem?_of_idxOf? hidx).symm.trans hk)
  exact ⟨hy ▸ Netlist.mem_gateBits hg, hy ▸ hidx⟩

end Necessary

/-- **No output is lost if and only if there is no output bit, or there is no flip-flop
and the output bits are distinct nets driven by gates.** -/
theorem outputsComputed_iff {useM12 : Bool} {doc module : Json} {n : Netlist} {bc : ParsedBC}
    (hrep : Represents doc module n) (hparse : parsedBC useM12 doc = .ok bc)
    (honce : n.DrivenOnce) (hdriven : n.OperandsDriven) (hlisted : n.Listed) :
    OutputsComputed useM12 n bc ↔ n.outputBits = [] ∨
      (n.registerBits = [] ∧ (∀ o ∈ n.outputBits, o ∈ n.gateBits) ∧ n.outputBits.Nodup) := by
  have hp := parsed_represents hrep hparse
  constructor
  · intro h
    by_cases hempty : n.outputBits = []
    · exact Or.inl hempty
    have hget : ∀ o ∈ n.outputBits, ∃ k, bc.outputVector[k]? = some o :=
      fun o ho => List.getElem?_of_mem ((mem_outputVector hp).mpr ho)
    obtain ⟨o, ho⟩ := List.exists_mem_of_ne_nil _ hempty
    obtain ⟨k, hk⟩ := hget o ho
    have hcomb := h.combinational hp hk
    refine Or.inr ⟨hcomb, ?_, ?_⟩
    · intro o ho
      obtain ⟨k, hk⟩ := hget o ho
      exact (h.driven hrep hparse hcomb honce hdriven hk).1
    · rw [← outputVector_nodup hp, List.nodup_iff_getElem?_ne_getElem?]
      intro i j hij hj heq
      have hjth := List.getElem?_eq_getElem hj
      have hfirst := (h.driven hrep hparse hcomb honce hdriven (heq.trans hjth)).2
      have hsecond := (h.driven hrep hparse hcomb honce hdriven hjth).2
      exact absurd (Option.some.inj (hfirst.symm.trans hsecond)) (Nat.ne_of_lt hij)
  · rintro (hempty | ⟨hcomb, houts, hnodup⟩)
    · intro V enc gate file valueInit zero x _ _ _ k id hk
      have hmem := (mem_outputVector hp).mp (List.mem_of_getElem? hk)
      rw [hempty] at hmem
      exact absurd hmem (List.not_mem_nil)
    · intro V enc gate file valueInit zero x hgate _ hin k id hk
      refine ⟨_, execute_of_build gate (build_placed hrep hparse hcomb honce hdriven) _, ?_⟩
      rw [insertedTasks_inserted]
      refine outputComputed hrep hparse hcomb honce hdriven houts hnodup hlisted hgate ?_ hk
      intro i id hi
      obtain ⟨c, hc, henc⟩ := hin i id hi
      rwa [initialSlots, List.getD_eq_getElem?_getD, hc, Option.getD_some]

theorem sharedNand_outputsComputed : ∃ bc, parsedBC false sharedNand.toJson = .ok bc ∧
    OutputsComputed false sharedNand bc :=
  ⟨_, sharedNand_parsed false,
    (outputsComputed_iff sharedNand_represents (sharedNand_parsed false)
      (show List.Nodup _ by decide) sharedNand_driven sharedNand_listed).mpr
      (Or.inr ⟨rfl, by decide, by decide⟩)⟩

/-- An input that is passed straight through to an output. -/
def passThrough : Netlist where
  ports := [("a", ⟨.input, [2]⟩), ("y", ⟨.output, [2]⟩)]
  cells := []

theorem passThrough_represents :
    Represents passThrough.toJson passThrough.moduleJson passThrough :=
  represents_toJson (by simp [Netlist.Fits, passThrough])

theorem passThrough_parsed : parsedBC false passThrough.toJson
    = .ok { inputVector := [2], outputVector := [2] } := by
  rfl

/-- The output of the passed-through input keeps its initial content. -/
theorem passThrough_lost :
    ¬ ∀ (useM12 : Bool) (doc module : Json) (n : Netlist) (bc : ParsedBC),
      Represents doc module n → parsedBC useM12 doc = .ok bc → n.DrivenOnce →
      n.OperandsDriven → (∀ o ∈ n.outputBits, o ∈ n.inputBits ++ n.registerBits ++ n.gateBits) →
      n.Listed → OutputsComputed useM12 n bc := by
  intro h
  have hcomputed := h false _ _ _ _ passThrough_represents passThrough_parsed
    (show List.Nodup _ by decide) (fun g hg => absurd hg (List.not_mem_nil)) (by decide)
    ⟨fun g hg => absurd hg (List.not_mem_nil), List.Pairwise.nil⟩
  obtain ⟨final, hrun, hwritten⟩ := hcomputed.written (show [2][0]? = some 2 from rfl)
  exact hwritten (congrFun (Except.ok.inj hrun) (.cipherout 0)).symm

end Tangor
