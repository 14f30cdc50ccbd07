/-
What the names of the cells decide.

The gate vector lists the gates in the order of their names, so of two gates the one
with the smaller name is submitted first.  A gate therefore reads the result of a
gate with a smaller name, and the initial content of the slot of a gate with a
larger one: `finalSlots_gate` is that equation.

Renaming the cells changes the outputs exactly when, somewhere in the part of the
netlist the outputs are computed from (`Cone`), a gate and the driver of one of its
operands change places.  `orderKept_of_terms` reads the order off the outputs:
on ciphertexts that are the terms they were computed by, two stores with the same
outputs were computed the same way.
-/
import Tangor.Proofs.Compile

namespace Tangor

open YosysJSONparser TaskGraph Fallible

/-! ### Names -/

namespace Netlist

/-- The netlist with its cells renamed. -/
def rename (n : Netlist) (ρ : String → String) (hρ : ((n.cells.map Prod.fst).map ρ).Nodup) :
    Netlist where
  ports := n.ports
  cells := n.cells.map fun nc => (ρ nc.1, nc.2)
  portNames := n.portNames
  cellNames := by
    rw [List.map_map] at hρ ⊢
    exact hρ

theorem rename_gates (n : Netlist) (ρ : String → String)
    (hρ : ((n.cells.map Prod.fst).map ρ).Nodup) : (n.rename ρ hρ).gates = n.gates := by
  rw [gates, rename, List.filterMap_map]
  rfl

theorem rename_registerBits (n : Netlist) (ρ : String → String)
    (hρ : ((n.cells.map Prod.fst).map ρ).Nodup) :
    (n.rename ρ hρ).registerBits = n.registerBits := by
  rw [registerBits, rename, List.filterMap_map]
  rfl

/-- Two cells that drive one net are one cell. -/
theorem DrivenOnce.name_unique {n : Netlist} (h : n.DrivenOnce) {a b : String} {g d : Gate}
    (hg : (a, Cell.gate g) ∈ n.cells) (hd : (b, Cell.gate d) ∈ n.cells) (hy : g.y = d.y) :
    a = b := by
  have hnd : (n.cells.filterMap fun nc => nc.2.gate?.map Gate.y).Nodup := by
    rw [← List.map_filterMap]
    exact (List.nodup_append.mp h).2.1
  have hsymm : Std.Symm fun nc nd : String × Cell => ∀ y, nc.2.gate?.map Gate.y = some y →
      ∀ z, nd.2.gate?.map Gate.y = some z → y ≠ z :=
    ⟨fun _ _ hR y hy z hz => (hR z hz y hy).symm⟩
  by_contra hne
  exact (List.pairwise_filterMap.mp hnd).forall hg hd (fun heq => hne (congrArg Prod.fst heq))
    g.y rfl d.y rfl hy

/-- A net a gate drives is driven by some cell. -/
theorem exists_driver {n : Netlist} {i : Nat} (hi : i ∈ n.gateBits) :
    ∃ b d, (b, Cell.gate d) ∈ n.cells ∧ d.y = i := by
  obtain ⟨d, hd, hy⟩ := List.mem_map.mp hi
  obtain ⟨⟨b, c⟩, hbc, hc⟩ := List.mem_filterMap.mp hd
  cases c with
  | sdff _ _ => exact absurd hc (by simp [Cell.gate?])
  | gate d' =>
      obtain rfl : d' = d := Option.some.inj hc
      exact ⟨b, d', hbc, hy⟩

/-- Induction over the gates in the order of their names. -/
theorem gate_induction {n : Netlist} {P : String → Gate → Prop}
    (hstep : ∀ a g, (a, Cell.gate g) ∈ n.cells →
      (∀ b d, (b, Cell.gate d) ∈ n.cells → b < a → P b d) → P a g)
    {a : String} {g : Gate} (hg : (a, Cell.gate g) ∈ n.cells) : P a g := by
  have hwf : {a : String | a ∈ n.cells.map Prod.fst}.WellFoundedOn (· < ·) :=
    (List.finite_toSet _).wellFoundedOn
  have hmem : ∀ {b : String} {d : Gate}, (b, Cell.gate d) ∈ n.cells → b ∈ n.cells.map Prod.fst :=
    fun hd => List.mem_map_of_mem hd
  refine hwf.induction (P := fun a => ∀ g, (a, Cell.gate g) ∈ n.cells → P a g) (hmem hg) ?_ g hg
  intro a _ ih g hg
  exact hstep a g hg fun b d hd hlt => ih b (hmem hd) hlt d hd

/-! ### What a gate sees -/

/-- A gate with a smaller name than `a` drives the net `i`. -/
def DrivenBefore (n : Netlist) (a : String) (i : Nat) : Prop :=
  ∃ nc ∈ n.cells, nc.1 < a ∧ nc.2.gate?.map Gate.y = some i

instance (n : Netlist) (a : String) (i : Nat) : Decidable (n.DrivenBefore a i) :=
  inferInstanceAs (Decidable (∃ nc ∈ n.cells, nc.1 < a ∧ nc.2.gate?.map Gate.y = some i))

/-- What the gate named `a` finds on the net `i`, if the nets held `first` before the
tasks and hold `last` after them. -/
def seen {V : Type*} (n : Netlist) (a : String) (first last : Nat → V) (i : Nat) : V :=
  if n.DrivenBefore a i then last i else first i

theorem DrivenBefore.mem_gateBits {n : Netlist} {a : String} {i : Nat}
    (h : n.DrivenBefore a i) : i ∈ n.gateBits := by
  obtain ⟨nc, hnc, -, hi⟩ := h
  obtain ⟨g, hg, rfl⟩ := Option.map_eq_some_iff.mp hi
  exact List.mem_map_of_mem (List.mem_filterMap.mpr ⟨nc, hnc, hg⟩)

/-- With one driver only its name counts. -/
theorem DrivenOnce.drivenBefore_iff {n : Netlist} (h : n.DrivenOnce) {a b : String} {d : Gate}
    (hd : (b, Cell.gate d) ∈ n.cells) : n.DrivenBefore a d.y ↔ b < a := by
  constructor
  · rintro ⟨⟨c, cell⟩, hc, hlt, hy⟩
    obtain ⟨g, hg, hgy⟩ := Option.map_eq_some_iff.mp hy
    cases cell with
    | sdff d q => exact absurd hg (by simp [Cell.gate?])
    | gate g' =>
        obtain rfl : g' = g := Option.some.inj hg
        exact h.name_unique hc hd hgy ▸ hlt
  · exact fun hlt => ⟨_, hd, hlt, rfl⟩

end Netlist

section Equation

variable {V : Type*} {n : Netlist} {bc : ParsedBC} {slot : Nat → Slot}
  {gate : Codelet → List V → V}

theorem tasks_singleAssignment (hplaced : Placed n bc slot) (honce : n.DrivenOnce) :
    SingleAssignment ((n.tasks slot).map (TaskInsert.toTask gate)) := by
  have hdistinct : (n.gatesInOrder.map Gate.y).Nodup :=
    (n.gatesInOrder_perm.map Gate.y).nodup_iff.mpr (List.nodup_append.mp honce).2.1
  have hmem : ∀ {g}, g ∈ n.gatesInOrder → g.y ∈ n.nets :=
    fun hg => Netlist.mem_nets_of_gate (n.gatesInOrder_perm.mem_iff.mp hg)
  rw [SingleAssignment, Netlist.tasks, List.map_map, List.map_map]
  refine List.pairwise_map.mpr ((List.pairwise_map.mp hdistinct).imp_of_mem ?_)
  intro g h hg hh hne heq
  exact hne (hplaced.inj (hmem hg) (hmem hh) heq)

/-- **A gate's slot ends with its codelet on what the gate saw.** -/
theorem finalSlots_gate (hplaced : Placed n bc slot) (hcomb : n.Combinational)
    (honce : n.DrivenOnce) (hdriven : n.OperandsDriven) (σ : Slot → V) {a : String} {g : Gate}
    (hg : (a, Cell.gate g) ∈ n.cells) :
    finalSlots gate (n.tasks slot) σ (slot g.y) = gate g.type.codelet (g.type.order.map fun p =>
      n.seen a (fun i => σ (slot i)) (fun i => finalSlots gate (n.tasks slot) σ (slot i))
        (g.conn p)) := by
  have hsingle : SingleAssignment ((n.tasks slot).map (TaskInsert.toTask gate)) :=
    tasks_singleAssignment hplaced honce
  -- The tasks before the gate's are those of the gates with smaller names.
  obtain ⟨pre, post, hsplit⟩ := List.append_of_mem ((objectMap_perm n.cellNames).mem_iff.mpr hg)
  set taskOf : Gate → Task Slot V := fun g => (g.insert slot).toTask gate with htaskOf
  set before := (pre.filterMap fun nc => nc.2.gate?).map taskOf with hbefore
  set after := (post.filterMap fun nc => nc.2.gate?).map taskOf with hafter
  have htasks : (n.tasks slot).map (TaskInsert.toTask gate) = before ++ taskOf g :: after := by
    rw [Netlist.tasks, Netlist.gatesInOrder, hsplit, List.map_map, List.filterMap_append,
      List.filterMap_cons_some (f := fun nc : String × Cell => nc.2.gate?) (b := g) rfl,
      List.map_append, List.map_cons]
    rfl
  have hfront : ∀ i, n.DrivenBefore a i ↔
      ∃ d, some d ∈ pre.map (fun nc => nc.2.gate?) ∧ d.y = i := by
    intro i
    have hsorted := objectMap_sorted n.cells
    rw [hsplit] at hsorted
    obtain ⟨-, hpost, hcross⟩ := List.pairwise_append.mp hsorted
    constructor
    · rintro ⟨nc, hnc, hlt, hy⟩
      obtain ⟨d, hd, hdy⟩ := Option.map_eq_some_iff.mp hy
      refine ⟨d, List.mem_map.mpr ⟨nc, ?_, hd⟩, hdy⟩
      have hmem := (objectMap_perm n.cellNames).mem_iff.mpr hnc
      rw [hsplit] at hmem
      rcases List.mem_append.mp hmem with hmem | hmem
      · exact hmem
      · rcases List.mem_cons.mp hmem with rfl | hmem
        · exact absurd hlt (lt_irrefl _)
        · exact absurd ((List.pairwise_cons.mp hpost).1 nc hmem) hlt.asymm
    · rintro ⟨d, hd, rfl⟩
      obtain ⟨nc, hnc, hgate⟩ := List.mem_map.mp hd
      refine ⟨nc, (objectMap_perm n.cellNames).mem_iff.mp ?_,
        hcross nc hnc _ List.mem_cons_self, by rw [hgate]; rfl⟩
      rw [hsplit]
      exact List.mem_append_left _ hnc
  rw [htasks] at hsingle
  show runAll _ σ (taskOf g).target = _
  rw [htasks, runAll_target hsingle]
  show gate g.type.codelet ((g.type.order.map fun p => slot (g.conn p)).map _) = _
  rw [List.map_map]
  refine congrArg _ (List.map_congr_left fun p hp => ?_)
  have hi : g.conn p ∈ n.nets := by
    have hmem := hdriven g (Netlist.mem_gates hg) _
      (List.mem_map_of_mem (GateType.mem_order.mp hp))
    rwa [hcomb, List.append_nil] at hmem
  show runAll before σ (slot (g.conn p)) = _
  unfold Netlist.seen
  split
  · rename_i hbef
    obtain ⟨d, hd, hdy⟩ := (hfront _).mp hbef
    obtain ⟨nc, hnc, hgate⟩ := List.mem_map.mp hd
    have hmem : taskOf d ∈ before :=
      List.mem_map_of_mem (List.mem_filterMap.mpr ⟨nc, hnc, hgate⟩)
    show _ = runAll _ σ (slot (g.conn p))
    rw [htasks, ← hdy]
    exact runAll_prefix hsingle σ hmem
  · rename_i hbef
    refine runAll_frame before σ ?_
    intro t ht heq
    obtain ⟨d, hd, rfl⟩ := List.mem_map.mp ht
    obtain ⟨nc, hnc, hgate⟩ := List.mem_filterMap.mp hd
    have hdmem : d ∈ n.gates := by
      refine n.gatesInOrder_perm.mem_iff.mp (List.mem_filterMap.mpr ⟨nc, ?_, hgate⟩)
      rw [hsplit]
      exact List.mem_append_left _ hnc
    exact hbef ((hfront _).mpr ⟨d, List.mem_map.mpr ⟨nc, hnc, hgate⟩,
      hplaced.inj (Netlist.mem_nets_of_gate hdmem) hi heq⟩)

end Equation

/-! ### The outputs before and after a renaming -/

/-- The contents of `cipherout` after the gate vector is run on the client's file. -/
def outputsOf {V : Type*} (useM12 : Bool) (bc : ParsedBC) (gate : Codelet → List V → V)
    (file : List V) (valueInit homCONSTANTZERO : V) : Result (List V) :=
  (executeGates useM12 bc gate (initialSlots file valueInit homCONSTANTZERO)).map fun final =>
    (cipheroutHandle bc).map final

/-- The two parses compute the same outputs, for all ciphertexts and whatever the
codelets do. -/
def SameOutputs (useM12 : Bool) (bc bc' : ParsedBC) : Prop :=
  ∀ (V : Type) (gate : Codelet → List V → V) (file : List V) (valueInit homCONSTANTZERO : V),
    ∃ outputs, outputsOf useM12 bc gate file valueInit homCONSTANTZERO = .ok outputs ∧
      outputsOf useM12 bc' gate file valueInit homCONSTANTZERO = .ok outputs

/-- The gates the outputs are computed from: those that drive an output, and those that
drive an operand of such a gate and have a smaller name. -/
inductive Netlist.Cone (n : Netlist) : String → Gate → Prop
  | output {a : String} {g : Gate} (hg : (a, Cell.gate g) ∈ n.cells) (ho : g.y ∈ n.outputBits) :
      Cone n a g
  | operand {a b : String} {g d : Gate} (hg : Cone n a g) (hd : (b, Cell.gate d) ∈ n.cells)
      (hop : d.y ∈ g.operands) (hlt : b < a) : Cone n b d

theorem Netlist.Cone.mem {n : Netlist} {a : String} {g : Gate} (h : n.Cone a g) :
    (a, Cell.gate g) ∈ n.cells := by
  cases h with
  | output hg _ => exact hg
  | operand _ hd _ _ => exact hd

/-- In the cone of the outputs, the renaming keeps the order of a gate and the drivers of
its operands. -/
def Netlist.OrderKept (n : Netlist) (ρ : String → String) : Prop :=
  ∀ a g, n.Cone a g → ∀ b d, (b, Cell.gate d) ∈ n.cells → d.y ∈ g.operands →
    (b < a ↔ ρ b < ρ a)

section Renamed

variable {n : Netlist} {ρ : String → String} {hρ : ((n.cells.map Prod.fst).map ρ).Nodup}

theorem Netlist.mem_rename {a : String} {c : Cell} (h : (a, c) ∈ n.cells) :
    (ρ a, c) ∈ (n.rename ρ hρ).cells := List.mem_map.mpr ⟨(a, c), h, rfl⟩

variable (hρ) in
/-- Well-formedness says nothing about names. -/
theorem Netlist.rename_wellFormed (hcomb : n.Combinational) (honce : n.DrivenOnce)
    (hdriven : n.OperandsDriven) : (n.rename ρ hρ).Combinational ∧ (n.rename ρ hρ).DrivenOnce ∧
      (n.rename ρ hρ).OperandsDriven := by
  have hgates := n.rename_gates ρ hρ
  have hregs := n.rename_registerBits ρ hρ
  refine ⟨hregs.trans hcomb, ?_, ?_⟩
  · unfold DrivenOnce gateBits
    rw [hgates, hregs]
    exact honce
  · unfold OperandsDriven gateBits
    rw [hgates, hregs]
    exact hdriven

end Renamed

/-! ### Two solutions -/

/-- The contents `last` of the nets are what the gates make of the contents `first`. -/
def Netlist.Solves {V : Type*} (n : Netlist) (gate : Codelet → List V → V)
    (first last : Nat → V) : Prop :=
  ∀ a g, (a, Cell.gate g) ∈ n.cells →
    last g.y = gate g.type.codelet (g.type.order.map fun p => n.seen a first last (g.conn p))

section Solutions

variable {V : Type*} {n : Netlist} {ρ : String → String}
  {hρ : ((n.cells.map Prod.fst).map ρ).Nodup} {gate : Codelet → List V → V}
  {first first' last last' : Nat → V}

/-- Keeping the order in the cone keeps every content in the cone. -/
theorem Netlist.OrderKept.same (hkept : n.OrderKept ρ) (honce : n.DrivenOnce)
    (hcomb : n.Combinational) (hdriven : n.OperandsDriven) (hsolves : n.Solves gate first last)
    (hsolves' : (n.rename ρ hρ).Solves gate first' last')
    (hfirst : ∀ i ∈ n.nets, first i = first' i) {a : String} {g : Gate} (hg : n.Cone a g) :
    last g.y = last' g.y := by
  have honce' := (Netlist.rename_wellFormed hρ hcomb honce hdriven).2.1
  refine Netlist.gate_induction (P := fun a g => n.Cone a g → last g.y = last' g.y) ?_ hg.mem hg
  intro a g hmem ih hcone
  rw [hsolves a g hmem, hsolves' (ρ a) g (Netlist.mem_rename hmem)]
  refine congrArg _ (List.map_congr_left fun p hp => ?_)
  have hop : g.conn p ∈ g.operands := List.mem_map_of_mem (GateType.mem_order.mp hp)
  have hnet : g.conn p ∈ n.nets := by
    have h := hdriven g (Netlist.mem_gates hmem) _ hop
    rwa [hcomb, List.append_nil] at h
  unfold Netlist.seen
  by_cases hgate : g.conn p ∈ n.gateBits
  · obtain ⟨b, d, hd, hy⟩ := Netlist.exists_driver hgate
    have hiff := hkept a g hcone b d hd (hy ▸ hop)
    have hbefore : n.DrivenBefore a (g.conn p) ↔ b < a := hy ▸ honce.drivenBefore_iff hd
    have hbefore' : (n.rename ρ hρ).DrivenBefore (ρ a) (g.conn p) ↔ ρ b < ρ a :=
      hy ▸ honce'.drivenBefore_iff (Netlist.mem_rename hd)
    by_cases hlt : b < a
    · rw [if_pos (hbefore.mpr hlt), if_pos (hbefore'.mpr (hiff.mp hlt)), ← hy]
      exact ih b d hd hlt (.operand hcone hd (hy ▸ hop) hlt)
    · rw [if_neg fun h => hlt (hbefore.mp h), if_neg fun h => hlt (hiff.mpr (hbefore'.mp h))]
      exact hfirst _ hnet
  · have hgate' : g.conn p ∉ (n.rename ρ hρ).gateBits := by
      rwa [Netlist.gateBits, n.rename_gates ρ hρ]
    rw [if_neg fun h => hgate h.mem_gateBits, if_neg fun h => hgate' h.mem_gateBits]
    exact hfirst _ hnet

end Solutions

/-- A ciphertext as the computation it came from. -/
inductive Term where
  | initial
  | input (i : Nat)
  | node (codelet : Codelet) (operands : List Term)

section Terms

variable {n : Netlist} {ρ : String → String} {hρ : ((n.cells.map Prod.fst).map ρ).Nodup}
  {first first' last last' : Nat → Term}

/-- A gate whose term is the same before and after the renaming has each of its operands
computed on the same side of it, and the earlier ones in the same way. -/
theorem operand_same (honce : n.DrivenOnce) (hcomb : n.Combinational)
    (hdriven : n.OperandsDriven) (hsolves : n.Solves Term.node first last)
    (hsolves' : (n.rename ρ hρ).Solves Term.node first' last')
    (hfirst : ∀ i ∈ n.gateBits, first i = .initial)
    (hfirst' : ∀ i ∈ n.gateBits, first' i = .initial)
    {a b : String} {g d : Gate} (hg : (a, Cell.gate g) ∈ n.cells)
    (hd : (b, Cell.gate d) ∈ n.cells) (hop : d.y ∈ g.operands) (hsame : last g.y = last' g.y) :
    (b < a ↔ ρ b < ρ a) ∧ (b < a → last d.y = last' d.y) := by
  have honce' := (Netlist.rename_wellFormed hρ hcomb honce hdriven).2.1
  have hnet := Netlist.mem_gateBits (Netlist.mem_gates hd)
  have hnode : last d.y ≠ .initial := by
    rw [hsolves b d hd]
    exact fun h => Term.noConfusion h
  have hnode' : last' d.y ≠ .initial := by
    rw [hsolves' (ρ b) d (Netlist.mem_rename hd)]
    exact fun h => Term.noConfusion h
  have hseen : n.seen a first last d.y = (n.rename ρ hρ).seen (ρ a) first' last' d.y := by
    rw [hsolves a g hg, hsolves' (ρ a) g (Netlist.mem_rename hg)] at hsame
    obtain ⟨p, hp, hy⟩ := List.mem_map.mp hop
    have hmap := (Term.node.inj hsame).2
    have := List.map_inj_left.mp hmap p (GateType.mem_order.mpr hp)
    rwa [hy] at this
  unfold Netlist.seen at hseen
  rw [hfirst _ hnet, hfirst' _ hnet] at hseen
  have hbefore : n.DrivenBefore a d.y ↔ b < a := honce.drivenBefore_iff hd
  have hbefore' : (n.rename ρ hρ).DrivenBefore (ρ a) d.y ↔ ρ b < ρ a :=
    honce'.drivenBefore_iff (Netlist.mem_rename hd)
  by_cases hlt : b < a
  · rw [if_pos (hbefore.mpr hlt)] at hseen
    by_cases hlt' : ρ b < ρ a
    · rw [if_pos (hbefore'.mpr hlt')] at hseen
      exact ⟨iff_of_true hlt hlt', fun _ => hseen⟩
    · rw [if_neg fun h => hlt' (hbefore'.mp h)] at hseen
      exact absurd hseen hnode
  · rw [if_neg fun h => hlt (hbefore.mp h)] at hseen
    by_cases hlt' : ρ b < ρ a
    · rw [if_pos (hbefore'.mpr hlt')] at hseen
      exact absurd hseen.symm hnode'
    · exact ⟨iff_of_false hlt hlt', fun h => absurd h hlt⟩

/-- The order can be read off the terms of the outputs. -/
theorem orderKept_of_terms (honce : n.DrivenOnce) (hcomb : n.Combinational)
    (hdriven : n.OperandsDriven) (hsolves : n.Solves Term.node first last)
    (hsolves' : (n.rename ρ hρ).Solves Term.node first' last')
    (hfirst : ∀ i ∈ n.gateBits, first i = .initial)
    (hfirst' : ∀ i ∈ n.gateBits, first' i = .initial)
    (hout : ∀ o ∈ n.outputBits, last o = last' o) : n.OrderKept ρ := by
  have hcone : ∀ a g, n.Cone a g → last g.y = last' g.y := by
    intro a g hg
    induction hg with
    | output _ ho => exact hout _ ho
    | operand hg hd hop hlt ih =>
        exact (operand_same honce hcomb hdriven hsolves hsolves' hfirst hfirst' hg.mem hd hop
          ih).2 hlt
  intro a g hg b d hd hop
  exact (operand_same honce hcomb hdriven hsolves hsolves' hfirst hfirst' hg.mem hd hop
    (hcone a g hg)).1

end Terms

/-! ### The contents of the output vector -/

section Outputs

variable {useM12 : Bool} {doc module : Json} {n : Netlist} {bc : ParsedBC}

/-- What the builder makes of a netlist: contents of the nets that solve the gates'
equations, of which the outputs are read. -/
theorem outputsOf_eq (hrep : Represents doc module n) (hparse : parsedBC useM12 doc = .ok bc)
    (hcomb : n.Combinational) (honce : n.DrivenOnce) (hdriven : n.OperandsDriven)
    (houts : ∀ o ∈ n.outputBits, o ∈ n.gateBits) (hnodup : n.outputBits.Nodup) {V : Type*}
    (gate : Codelet → List V → V) (file : List V) (valueInit zero : V) :
    ∃ last, outputsOf useM12 bc gate file valueInit zero = .ok (bc.outputVector.map last) ∧
      n.Solves gate (fun i => initialSlots file valueInit zero (slotOf bc i)) last := by
  have hp := parsed_represents hrep hparse
  have hplaced := placed hrep hparse hcomb honce
  refine ⟨fun i => finalSlots gate (n.tasks (slotOf bc)) (initialSlots file valueInit zero)
    (slotOf bc i), ?_, fun a g hg => finalSlots_gate hplaced hcomb honce hdriven _ hg⟩
  rw [outputsOf, execute_of_build gate (build_placed hrep hparse hcomb honce hdriven),
    insertedTasks_inserted]
  refine congrArg Except.ok (List.ext_getElem (by simp [cipheroutHandle]) ?_)
  intro k hk hk'
  have hk : k < bc.outputVector.length := by simpa using hk'
  have hget := List.getElem?_eq_getElem hk
  have hgate := houts _ ((mem_outputVector hp).mp (List.getElem_mem hk))
  simp [cipheroutHandle, hplaced.cipherout hp hnodup hget hgate]

/-- Slots gates write start with a value-initialised ciphertext. -/
theorem initialSlots_gate {V : Type*} {slot : Nat → Slot} (hplaced : Placed n bc slot)
    {file : List V} {valueInit zero : V} {i : Nat} (hi : i ∈ n.gateBits) :
    initialSlots file valueInit zero (slot i) = valueInit := by
  by_cases hout : i ∈ n.outputBits
  · obtain ⟨k, -, hk⟩ := hplaced.output i hi hout
    rw [hk, initialSlots]
  · obtain ⟨k, hk⟩ := hplaced.wire i hi hout
    rw [hk, initialSlots]

/-- A renaming leaves the initial contents of the nets alone. -/
theorem initialSlots_rename {V : Type*} {ρ : String → String}
    {hρ : ((n.cells.map Prod.fst).map ρ).Nodup} {bc' : ParsedBC} {slot slot' : Nat → Slot}
    (hplaced : Placed n bc slot) (hplaced' : Placed (n.rename ρ hρ) bc' slot')
    (hin : bc.inputVector = bc'.inputVector) (hnodup : bc.inputVector.Nodup) {file : List V}
    {valueInit zero : V} {i : Nat} (hi : i ∈ n.nets) :
    initialSlots file valueInit zero (slot i) = initialSlots file valueInit zero (slot' i) := by
  rcases List.mem_append.mp hi with hi | hi
  · obtain ⟨k, hk, hslot⟩ := hplaced.input i hi
    obtain ⟨k', hk', hslot'⟩ := hplaced'.input i hi
    rw [hslot, hslot', getElem?_inj_of_nodup hnodup hk (hin ▸ hk')]
  · have hi' : i ∈ (n.rename ρ hρ).gateBits := by
      rwa [Netlist.gateBits, n.rename_gates ρ hρ]
    rw [initialSlots_gate hplaced hi, initialSlots_gate hplaced' hi']

end Outputs

/-- **Renaming the cells keeps the outputs if and only if, in the cone of the outputs, it
keeps the order of a gate's name and the name of each gate that drives an operand of it.** -/
theorem sameOutputs_iff {useM12 : Bool} {doc module doc' module' : Json} {n : Netlist}
    {ρ : String → String} {hρ : ((n.cells.map Prod.fst).map ρ).Nodup} {bc bc' : ParsedBC}
    (hrep : Represents doc module n) (hrep' : Represents doc' module' (n.rename ρ hρ))
    (hparse : parsedBC useM12 doc = .ok bc) (hparse' : parsedBC useM12 doc' = .ok bc')
    (hcomb : n.Combinational) (honce : n.DrivenOnce) (hdriven : n.OperandsDriven)
    (houts : ∀ o ∈ n.outputBits, o ∈ n.gateBits) (hnodup : n.outputBits.Nodup) :
    SameOutputs useM12 bc bc' ↔ n.OrderKept ρ := by
  obtain ⟨hcomb', honce', hdriven'⟩ := Netlist.rename_wellFormed hρ hcomb honce hdriven
  have houts' : ∀ o ∈ (n.rename ρ hρ).outputBits, o ∈ (n.rename ρ hρ).gateBits := by
    intro o ho
    rw [Netlist.gateBits, n.rename_gates ρ hρ]
    exact houts o ho
  have hp := parsed_represents hrep hparse
  have hp' := parsed_represents hrep' hparse'
  have hplaced := placed hrep hparse hcomb honce
  have hplaced' := placed hrep' hparse' hcomb' honce'
  have hin : bc.inputVector = bc'.inputVector := hp.input.trans hp'.input.symm
  have hout : bc'.outputVector = bc.outputVector := hp'.output.trans hp.output.symm
  constructor
  · intro h
    obtain ⟨outputs, heq, heq'⟩ := h Term Term.node [] .initial (.input 0)
    obtain ⟨last, hlast, hsolves⟩ :=
      outputsOf_eq hrep hparse hcomb honce hdriven houts hnodup Term.node [] .initial (.input 0)
    obtain ⟨last', hlast', hsolves'⟩ := outputsOf_eq hrep' hparse' hcomb' honce' hdriven' houts'
      hnodup Term.node [] .initial (.input 0)
    have hsame := (Except.ok.inj (hlast.symm.trans heq)).trans
      (Except.ok.inj (hlast'.symm.trans heq')).symm
    rw [hout] at hsame
    refine orderKept_of_terms honce hcomb hdriven hsolves hsolves'
      (fun i hi => initialSlots_gate hplaced hi) (fun i hi => initialSlots_gate hplaced' ?_) ?_
    · rwa [Netlist.gateBits, n.rename_gates ρ hρ]
    · exact fun o ho => List.map_inj_left.mp hsame o ((mem_outputVector hp).mpr ho)
  · intro hkept V gate file valueInit zero
    obtain ⟨last, hlast, hsolves⟩ :=
      outputsOf_eq hrep hparse hcomb honce hdriven houts hnodup gate file valueInit zero
    obtain ⟨last', hlast', hsolves'⟩ := outputsOf_eq hrep' hparse' hcomb' honce' hdriven' houts'
      hnodup gate file valueInit zero
    refine ⟨_, hlast, ?_⟩
    rw [hlast', hout]
    refine congrArg Except.ok (List.map_congr_left fun o ho => ?_)
    have hmem := (mem_outputVector hp).mp ho
    have hinput : bc.inputVector.Nodup := by
      rw [hp.input, (sort_perm _).nodup_iff, n.inputBits_perm.nodup_iff]
      exact (List.nodup_append.mp (List.nodup_append.mp honce).1).1
    obtain ⟨a, g, hg, rfl⟩ := Netlist.exists_driver (houts o hmem)
    exact (hkept.same honce hcomb hdriven hsolves hsolves'
      (fun i hi => initialSlots_rename hplaced hplaced' hin hinput hi) (.output hg hmem)).symm

/-- Two inverters in a row. -/
def buffer : Netlist where
  ports := [("a", ⟨.input, [2]⟩), ("y", ⟨.output, [4]⟩)]
  cells := [("inv0", .gate ⟨.NOT, fun _ => 2, 3⟩), ("inv1", .gate ⟨.NOT, fun _ => 3, 4⟩)]

theorem buffer_operandsDriven : buffer.OperandsDriven := by
  intro g hg
  rcases List.mem_cons.mp hg with rfl | hg
  · decide
  · obtain rfl := List.mem_singleton.mp hg
    decide

/-- The buffer with its inverters called `u0` and `u1`. -/
def bufferSame : Netlist :=
  buffer.rename (fun name => if name = "inv0" then "u0" else "u1") (by decide)

/-- The buffer with the second inverter called `a`, before the first. -/
def bufferSwapped : Netlist :=
  buffer.rename (fun name => if name = "inv1" then "a" else name) (by decide)

theorem buffer_represents : Represents buffer.toJson buffer.moduleJson buffer :=
  represents_toJson (by simp [Netlist.Fits, buffer])

theorem bufferSame_represents :
    Represents bufferSame.toJson bufferSame.moduleJson bufferSame :=
  represents_toJson (by simp [Netlist.Fits, bufferSame, Netlist.rename, buffer])

theorem bufferSwapped_represents :
    Represents bufferSwapped.toJson bufferSwapped.moduleJson bufferSwapped :=
  represents_toJson (by simp [Netlist.Fits, bufferSwapped, Netlist.rename, buffer])

/-- The parsed buffer, with its gates in the order `gates`. -/
def bufferBC (gates : List GateStruct) (dependencies : List Nat) : ParsedBC where
  inputVector := [2]
  outputVector := [4]
  wireVector := [3]
  gateVector := gates
  dependencyVector := dependencies

def bufferInv0 : GateStruct := { name := "NOT", in0 := 2, out0 := 3 }

def bufferInv1 : GateStruct := { name := "NOT", in0 := 3, out0 := 4 }

theorem buffer_parsed : parsedBC false buffer.toJson
    = .ok (bufferBC [bufferInv0, bufferInv1] [0, 0, 0, 1, 2]) := by
  rfl

theorem bufferSame_parsed : parsedBC false bufferSame.toJson
    = .ok (bufferBC [bufferInv0, bufferInv1] [0, 0, 0, 1, 2]) := by
  rfl

theorem bufferSwapped_parsed : parsedBC false bufferSwapped.toJson
    = .ok (bufferBC [bufferInv1, bufferInv0] [0, 0, 0, 2, 1]) := by
  rfl

theorem bufferSame_sameOutputs : ∃ bc bc', parsedBC false buffer.toJson = .ok bc ∧
    parsedBC false bufferSame.toJson = .ok bc' ∧ SameOutputs false bc bc' := by
  refine ⟨_, _, buffer_parsed, bufferSame_parsed,
    (sameOutputs_iff buffer_represents bufferSame_represents buffer_parsed bufferSame_parsed rfl
      (show List.Nodup _ by decide) buffer_operandsDriven (by decide) (by decide)).mpr ?_⟩
  have hall : ∀ a ∈ buffer.cells.map Prod.fst, ∀ b ∈ buffer.cells.map Prod.fst, (b < a ↔
      (if b = "inv0" then "u0" else "u1") < if a = "inv0" then "u0" else "u1") := by
    decide
  intro a g hg b d hd _
  exact hall a (List.mem_map_of_mem hg.mem) b (List.mem_map_of_mem hd)

theorem buffer_acyclic : buffer.Acyclic := by
  have hlt : ∀ i y, Relation.TransGen buffer.Feeds i y → i < y := by
    have hstep : ∀ i y, buffer.Feeds i y → i < y := by
      rintro i y ⟨g, hg, hi, rfl⟩
      rcases List.mem_cons.mp hg with rfl | hg
      · obtain rfl := List.mem_singleton.mp hi
        decide
      · obtain rfl := List.mem_singleton.mp hg
        obtain rfl := List.mem_singleton.mp hi
        decide
    intro i y h
    induction h with
    | single h => exact hstep _ _ h
    | tail _ h ih => exact ih.trans (hstep _ _ h)
  exact fun y h => lt_irrefl y (hlt y y h)

/-- With the names swapped the second inverter reads the first one's slot too early. -/
theorem bufferSwapped_differs :
    ¬ ∀ (useM12 : Bool) (doc module doc' module' : Json) (n : Netlist) (ρ : String → String)
      (hρ : ((n.cells.map Prod.fst).map ρ).Nodup) (bc bc' : ParsedBC),
      Represents doc module n → Represents doc' module' (n.rename ρ hρ) →
      parsedBC useM12 doc = .ok bc → parsedBC useM12 doc' = .ok bc' → n.Combinational →
      n.DrivenOnce → n.OperandsDriven → n.Acyclic → (∀ o ∈ n.outputBits, o ∈ n.gateBits) →
      n.outputBits.Nodup → SameOutputs useM12 bc bc' := by
  intro h
  have hsame := h false _ _ _ _ buffer _ _ _ _ buffer_represents bufferSwapped_represents
    buffer_parsed bufferSwapped_parsed rfl (show List.Nodup _ by decide) buffer_operandsDriven
    buffer_acyclic (by decide) (by decide)
  obtain ⟨outputs, heq, heq'⟩ := hsame Bool boolGate [false] false false
  have hleft : outputsOf false (bufferBC [bufferInv0, bufferInv1] [0, 0, 0, 1, 2]) boolGate
      [false] false false = .ok [false] := by rfl
  have hright : outputsOf false (bufferBC [bufferInv1, bufferInv0] [0, 0, 0, 2, 1]) boolGate
      [false] false false = .ok [true] := by rfl
  rw [hleft] at heq
  rw [hright] at heq'
  exact absurd (Except.ok.inj (heq.trans heq'.symm)) (by decide)

end Tangor
