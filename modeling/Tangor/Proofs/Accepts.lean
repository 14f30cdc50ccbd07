/-
Which documents the parser gets through, and which it rejects.

The constructor reads a document through `const` references.  A value of the wrong kind
throws, but an absent key, the first element of an empty array, a type name that is too
short and the net id `2 ^ 32 - 1` on an output pin leave the behaviour undefined.
What happens first decides, so a document is fine either when everything the constructor
reads is there, `DocOk`, or when the first thing that is not throws, `DocRejected`.

None of this depends on the object under construction but for one thing: the dependency
vector stays shorter than `2 ^ 32` (`Sized`), so that it can be resized for every other id.
-/
import Tangor.Proofs.Coverage

namespace Tangor

namespace YosysJSONparser

open Fallible

variable {α β : Type}

/-! ### What is read of a document -/

def Thrown : Fault → Prop
  | .thrown _ => True
  | .undefined _ => False

/-- The access ends in an exception. -/
def Throws (x : Result α) : Prop := ∃ fault, Thrown fault ∧ x = .error fault

def portDirection (port : Json) : Result String := do (← port.at "direction").getString

def portBits (port : Json) : Result (List Int) := do (← port.at "bits").getIntVector

/-- The gate name of a cell. -/
def cellName (cell : Json) : Result String := do gateNameOf (← cellType cell)

/-- The first element of a connection. -/
def pinJson (cell : Json) (name : String) : Result Json := do
  (← (← cell.at "connections").at name).index 0

/-- The operand pins after `A`, and the second output of a `$fa`, in the order in which
they are read. -/
def furtherPins (useM12 : Bool) (name : String) : List String :=
  if name = "NOT" then []
  else if name = "MUX" ∨ name = "NMUX" then ["B", "S"]
  else if name = "fa" then ["B", "X", "C"]
  else if useM12 ∧ (name = "AOI3" ∨ name = "OAI3") then ["B", "C"]
  else ["B"]

/-- The pins that are read of a cell, in that order. -/
def pinNames (useM12 : Bool) (name : String) : List String :=
  if name = "SDFF_PP0" then ["Q", "D"] else "Y" :: "A" :: furtherPins useM12 name

/-- The pin is the carry of a `$fa`, and a constant. -/
def ConstantCarry (name : String) (cell : Json) (p : String) : Prop :=
  name = "fa" ∧ p = "C" ∧ pinIsString cell p = .ok true

/-- The net of an output pin can be entered into the dependencies. -/
def Enterable (p : String) (net : Nat) : Prop := p = "Y" ∨ p = "X" → net ≠ 2 ^ 32 - 1

def PinOk (name : String) (cell : Json) (p : String) : Prop :=
  ConstantCarry name cell p ∨ ∃ net, pin cell p = .ok net ∧ Enterable p net

def PinRejected (name : String) (cell : Json) (p : String) : Prop :=
  ¬ ConstantCarry name cell p ∧ Throws (pin cell p)

/-! ### The documents that are fine -/

def PortOk (port : Json) : Prop :=
  ∃ direction, portDirection port = .ok direction ∧
    (direction = "input" ∨ direction = "output") ∧ ∃ bits, portBits port = .ok bits

def PortRejected (port : Json) : Prop :=
  Throws (portDirection port) ∨ ∃ direction, portDirection port = .ok direction ∧
    (direction ≠ "input" ∧ direction ≠ "output" ∨ Throws (portBits port))

variable (useM12 : Bool)

/-- The cell has a type name of the right length and the connections its type needs. -/
def CellOk (cell : Json) : Prop :=
  ∃ name, cellName cell = .ok name ∧ ∀ p ∈ pinNames useM12 name, PinOk name cell p

def CellRejected (cell : Json) : Prop :=
  Throws (cellName cell) ∨ ∃ name, cellName cell = .ok name ∧
    Stops (PinOk name cell) (PinRejected name cell) (pinNames useM12 name)

def ModuleOk (module : Json) : Prop :=
  (∃ ports, module.at "ports" = .ok ports ∧ ∀ port ∈ ports.items, PortOk port) ∧
    ∃ cells, module.at "cells" = .ok cells ∧ ∀ cell ∈ cells.items, CellOk useM12 cell

def ModuleRejected (module : Json) : Prop :=
  Throws (module.at "ports") ∨ ∃ ports, module.at "ports" = .ok ports ∧
    (Stops PortOk PortRejected ports.items ∨ (∀ port ∈ ports.items, PortOk port) ∧
      (Throws (module.at "cells") ∨ ∃ cells, module.at "cells" = .ok cells ∧
        Stops (CellOk useM12) (CellRejected useM12) cells.items))

def DocOk (doc : Json) : Prop :=
  ∃ modules, doc.at "modules" = .ok modules ∧ ∀ module ∈ modules.items, ModuleOk useM12 module

def DocRejected (doc : Json) : Prop :=
  Throws (doc.at "modules") ∨ ∃ modules, doc.at "modules" = .ok modules ∧
    Stops (ModuleOk useM12) (ModuleRejected useM12) modules.items

variable {useM12}

/-! ### Ports -/

theorem readPort_eq (st : ParseState) (port : Json) :
    readPort st port = portDirection port >>= fun direction =>
      if direction = "input" then portBits port >>= fun bits =>
        pure { st with bc.inputVector := st.bc.inputVector ++ bits.map Json.toUint }
      else if direction = "output" then portBits port >>= fun bits =>
        pure { st with bc.outputVector := st.bc.outputVector ++ bits.map Json.toUint }
      else .error (.thrown "Port Definition Error") := by
  simp only [readPort, portDirection, portBits, bind_assoc]

theorem readPort_decides (st : ParseState) (port : Json) :
    Decides Thrown (readPort st port) (PortOk port) (PortRejected port) := by
  rw [readPort_eq]
  refine Decides.read fun direction _ => ?_
  have hbits (g : List Int → ParseState) :
      Decides Thrown (portBits port >>= fun bits => pure (g bits)) (∃ bits, portBits port = .ok bits)
        (Throws (portBits port)) :=
    ((Decides.self Thrown (portBits port)).bind fun bits _ => Decides.pure (g bits)).congr
      (and_iff_left trivial) (by simp [Throws])
  by_cases hin : direction = "input"
  · rw [if_pos hin]
    exact (hbits _).congr (by simp [hin]) (by simp [hin])
  · rw [if_neg hin]
    by_cases hout : direction = "output"
    · rw [if_pos hout]
      exact (hbits _).congr (by simp [hout]) (by simp [hout])
    · rw [if_neg hout]
      refine ⟨iff_of_false (fun ⟨_, h⟩ => absurd h nofun) ?_, iff_of_true ?_ ?_⟩
      · exact fun h => h.1.elim hin hout
      · exact ⟨.thrown "Port Definition Error", trivial, rfl⟩
      · exact Or.inl ⟨hin, hout⟩

/-! ### Pins -/

theorem pin_eq (cell : Json) (p : String) : pin cell p = pinJson cell p >>= Json.getUint := by
  simp only [pin, pinJson, bind_assoc]

theorem pinIsString_eq (cell : Json) (p : String) :
    pinIsString cell p = pinJson cell p >>= fun j => pure j.isString := by
  simp only [pinIsString, pinJson, bind_assoc]

/-- A pin that is no output, and no carry that may be constant. -/
theorem pin_decides (name : String) {p : String} (hout : p ≠ "Y" ∧ p ≠ "X")
    (hcarry : name ≠ "fa" ∨ p ≠ "C")
    (cell : Json) :
    Decides Thrown (pin cell p) (PinOk name cell p) (PinRejected name cell p) := by
  have hconst : ¬ ConstantCarry name cell p := fun h => hcarry.elim (· h.1) (· h.2.1)
  have henter : ∀ net, Enterable p net := fun net h => absurd h (not_or.mpr hout)
  refine (Decides.self Thrown (pin cell p)).congr ?_ ?_
  · simp only [PinOk, hconst, false_or, henter, and_true]
  · simp only [PinRejected, hconst, not_false_eq_true, true_and, Throws]

/-- The dependency vector can be resized. -/
def Sized (bc : ParsedBC) : Prop := bc.dependencyVector.length < 2 ^ 32

theorem length_resize {γ : Type} (xs : List γ) (size : Nat) (fill : γ) :
    (resize xs size fill).length = size := by
  simp [resize]
  omega

/-- The dependency vector with room for a net. -/
def roomFor (bc : ParsedBC) (net : Nat) : List Nat :=
  if bc.dependencyVector.length ≤ net then resize bc.dependencyVector ((net + 1) % 2 ^ 32) 0
  else bc.dependencyVector

theorem recordOutput_cases (bc : ParsedBC) (gateIndex net : Nat) :
    (net < (roomFor bc net).length ∧ ∃ bc', recordOutput bc gateIndex net = .ok bc' ∧
        bc'.dependencyVector = (roomFor bc net).set net gateIndex) ∨
      ¬ net < (roomFor bc net).length ∧
        ∃ what, recordOutput bc gateIndex net = .error (.undefined what) := by
  by_cases h : net < (roomFor bc net).length
  · exact Or.inl ⟨h, _, if_pos h, rfl⟩
  · exact Or.inr ⟨h, _, if_neg h⟩

theorem length_roomFor {bc : ParsedBC} (hbc : Sized bc) {net : Nat} (hnet : net < 2 ^ 32) :
    (net < (roomFor bc net).length ↔ net ≠ 2 ^ 32 - 1) ∧ (roomFor bc net).length < 2 ^ 32 := by
  unfold roomFor Sized at *
  split
  · rw [length_resize]
    by_cases hmax : net = 2 ^ 32 - 1
    · simp [hmax]
    · have hsmall : net + 1 < 2 ^ 32 := by omega
      rw [Nat.mod_eq_of_lt hsmall]
      exact ⟨iff_of_true (Nat.lt_succ_self _) hmax, hsmall⟩
  · exact ⟨by omega, hbc⟩

/-- A net of 32 bits is entered exactly when the next number has 32 bits too. -/
theorem recordOutput_decides {bc : ParsedBC} (hbc : Sized bc) (gateIndex : Nat) {net : Nat}
    (hnet : net < 2 ^ 32) :
    Decides Thrown (recordOutput bc gateIndex net) (net ≠ 2 ^ 32 - 1) False := by
  rw [← (length_roomFor hbc hnet).1]
  rcases recordOutput_cases bc gateIndex net with ⟨hroom, bc', h, -⟩ | ⟨hroom, what, h⟩ <;> rw [h]
  · refine ⟨iff_of_true ⟨bc', rfl⟩ hroom, iff_false_intro ?_⟩
    rintro ⟨_, -, h⟩
    cases h
  · refine ⟨iff_of_false (fun ⟨_, h⟩ => absurd h nofun) hroom, iff_false_intro ?_⟩
    rintro ⟨fault, hthrown, h⟩
    rw [← Except.error.inj h] at hthrown
    exact hthrown

theorem recordOutput_sized {bc bc' : ParsedBC} {gateIndex net : Nat} (hbc : Sized bc)
    (hnet : net < 2 ^ 32) (h : recordOutput bc gateIndex net = .ok bc') : Sized bc' := by
  rcases recordOutput_cases bc gateIndex net with ⟨-, bc'', h', hdep⟩ | ⟨-, what, h'⟩
  · obtain rfl : bc'' = bc' := Except.ok.inj (h'.symm.trans h)
    rw [Sized, hdep, List.length_set]
    exact (length_roomFor hbc hnet).2
  · exact absurd (h'.symm.trans h) nofun

theorem getUint_lt {j : Json} {net : Nat} (h : j.getUint = .ok net) : net < 2 ^ 32 := by
  cases j with
  | int n =>
      simp only [Json.getUint] at h
      split at h
      · rw [← Except.ok.inj h, Json.toUint]
        omega
      · cases h
  | float t =>
      simp only [Json.getUint] at h
      split at h
      · rw [← Except.ok.inj h]
        omega
      · cases h
  | bool b =>
      rw [← Except.ok.inj h]
      cases b <;> decide
  | null | str _ | arr _ | obj _ => cases h

theorem pin_lt {cell : Json} {p : String} {net : Nat}
    (h : pin cell p = .ok net) : net < 2 ^ 32 := by
  rw [pin_eq, bind_eq_ok] at h
  obtain ⟨j, -, hj⟩ := h
  exact getUint_lt hj

/-- An output pin, whose net is entered as soon as it is read. -/
theorem output_decides (name : String) {p : String} (hp : p = "Y" ∨ p = "X") {cell : Json}
    {bc : ParsedBC}
    (hbc : Sized bc) (gateIndex : Nat) {k : Nat → ParsedBC → Result β} {ok rejects : Prop}
    (hk : ∀ net bc', pin cell p = .ok net → Sized bc' → Decides Thrown (k net bc') ok rejects) :
    Decides Thrown (pin cell p >>= fun net => recordOutput bc gateIndex net >>= k net)
      (PinOk name cell p ∧ ok) (PinRejected name cell p ∨ PinOk name cell p ∧ rejects) := by
  have hconst : ¬ ConstantCarry name cell p := by
    rintro ⟨-, rfl, -⟩
    exact absurd hp (by decide)
  have hpin : PinOk name cell p ↔ ∃ net, pin cell p = .ok net ∧ net ≠ 2 ^ 32 - 1 := by
    simp only [PinOk, hconst, false_or, Enterable, hp, true_imp_iff]
  have hrejected : PinRejected name cell p ↔ Throws (pin cell p) := by
    simp only [PinRejected, hconst, not_false_eq_true, true_and]
  have hread : Decides Thrown (pin cell p >>= fun net => recordOutput bc gateIndex net >>= k net)
      (∃ net, pin cell p = .ok net ∧ net ≠ 2 ^ 32 - 1 ∧ ok)
      (Throws (pin cell p) ∨ ∃ net, pin cell p = .ok net ∧ net ≠ 2 ^ 32 - 1 ∧ rejects) := by
    refine Decides.read fun net hnet => ?_
    have hlt := pin_lt hnet
    exact ((recordOutput_decides hbc gateIndex hlt).bind fun bc' h =>
      hk net bc' hnet (recordOutput_sized hbc hlt h)).congr Iff.rfl (by simp)
  refine hread.congr ?_ ?_
  · rw [hpin]
    constructor
    · rintro ⟨net, hnet, hne, hok⟩
      exact ⟨⟨net, hnet, hne⟩, hok⟩
    · rintro ⟨⟨net, hnet, hne⟩, hok⟩
      exact ⟨net, hnet, hne, hok⟩
  · rw [hpin, hrejected]
    refine or_congr Iff.rfl ?_
    constructor
    · rintro ⟨net, hnet, hne, hok⟩
      exact ⟨⟨net, hnet, hne⟩, hok⟩
    · rintro ⟨⟨net, hnet, hne⟩, hok⟩
      exact ⟨net, hnet, hne, hok⟩

/-- The carry of a `$fa`: a constant is not read as a net. -/
theorem carry_decides {name : String} (hfa : name = "fa") (cell : Json) {a : α} {f : Nat → α} :
    Decides Thrown (pinIsString cell "C" >>= fun isString =>
        if isString then pure a else pin cell "C" >>= fun c => pure (f c))
      (PinOk name cell "C") (PinRejected name cell "C") := by
  subst hfa
  have henter : ∀ net, Enterable "C" net := fun net h => absurd h (by decide)
  simp only [PinOk, PinRejected, ConstantCarry, true_and, henter, and_true, pin_eq, pinIsString_eq]
  cases hj : pinJson cell "C" with
  | error fault =>
      exact (Decides.self Thrown (.error fault)).congr (by simp)
        (by simp [Throws, Bind.bind, Except.bind])
  | ok j =>
      simp only [ok_bind]
      by_cases hstring : j.isString
      · simp only [hstring]
        exact (Decides.pure a).congr (by simp) (by simp)
      · simp only [hstring]
        refine ((Decides.self Thrown j.getUint).bind fun c _ => Decides.pure (f c)).congr ?_ ?_
        · simp
        · simp [Throws]

/-! ### Cells -/

theorem readOperands_decides (cell : Json) {bc : ParsedBC} (hbc : Sized bc) (gateIndex : Nat)
    (gate : GateStruct) :
    Decides Thrown (readOperands useM12 cell gateIndex bc gate)
      (∀ p ∈ furtherPins useM12 gate.name, PinOk gate.name cell p)
      (Stops (PinOk gate.name cell) (PinRejected gate.name cell) (furtherPins useM12 gate.name)) := by
  unfold readOperands furtherPins
  by_cases hnot : gate.name = "NOT"
  · simp only [if_pos hnot]
    exact (Decides.pure _).congr (by simp) Iff.rfl
  simp only [if_neg hnot]
  have hB : Decides Thrown (pin cell "B") (PinOk gate.name cell "B")
      (PinRejected gate.name cell "B") := pin_decides _ (by decide) (Or.inr (by decide)) cell
  by_cases hmux : gate.name = "MUX" ∨ gate.name = "NMUX"
  · simp only [if_pos hmux]
    refine (hB.bind fun b _ => (pin_decides gate.name (p := "S") (by decide)
      (Or.inr (by decide)) cell).bind fun s _ => Decides.pure _).congr ?_ ?_
    · simp
    · simp [Stops]
  simp only [if_neg hmux]
  by_cases hfa : gate.name = "fa"
  · simp only [if_pos hfa]
    refine (hB.bind fun b _ => output_decides gate.name (p := "X") (Or.inr rfl) hbc
      gateIndex fun x bc' _ _ => carry_decides hfa cell).congr ?_ ?_
    · simp
    · simp [Stops]
  simp only [if_neg hfa]
  by_cases hm12 : useM12 ∧ (gate.name = "AOI3" ∨ gate.name = "OAI3")
  · simp only [if_pos hm12]
    refine (hB.bind fun b _ => (pin_decides gate.name (p := "C") (by decide)
      (Or.inl hfa) cell).bind fun s _ => Decides.pure _).congr ?_ ?_
    · simp
    · simp [Stops]
  · simp only [if_neg hm12]
    refine (hB.bind fun b _ => Decides.pure _).congr ?_ ?_
    · simp
    · simp [Stops]

theorem readGate_decides (cell : Json) {st : ParseState} (hst : Sized st.bc) {name : String}
    (hname : name ≠ "SDFF_PP0") :
    Decides Thrown (readGate useM12 st cell name) (∀ p ∈ pinNames useM12 name, PinOk name cell p)
      (Stops (PinOk name cell) (PinRejected name cell) (pinNames useM12 name)) := by
  have hrest (a y : Nat) (bc : ParsedBC) (hbc : Sized bc) (k : ParsedBC × GateStruct → ParseState) :
      Decides Thrown
        (readOperands useM12 cell st.gateIndex bc { name := name, in0 := a, out0 := y } >>=
          fun r => pure (k r))
        (∀ p ∈ furtherPins useM12 name, PinOk name cell p)
        (Stops (PinOk name cell) (PinRejected name cell) (furtherPins useM12 name)) :=
    ((readOperands_decides cell hbc st.gateIndex _).bind fun r _ =>
      Decides.pure (k r)).congr (and_iff_left trivial) (by simp)
  simp only [readGate]
  refine (output_decides name (Or.inl rfl) hst st.gateIndex fun y bc _ hbc =>
    (pin_decides name (p := "A") (by decide) (Or.inr (by decide)) cell).bind fun a _ =>
      hrest a y bc hbc _).congr ?_ ?_
  · simp [pinNames, hname]
  · simp [pinNames, hname, Stops]

theorem readCell_eq (useM12 : Bool) (st : ParseState) (cell : Json) :
    readCell useM12 st cell = cellName cell >>= fun name =>
      if name = "SDFF_PP0" then pin cell "Q" >>= fun q => pin cell "D" >>= fun d =>
        pure { st with
          bc.dffQVector := st.bc.dffQVector ++ [q]
          bc.dffDVector := st.bc.dffDVector ++ [d] }
      else readGate useM12 st cell name := by
  simp only [readCell, cellName, cellType, bind_assoc]

theorem readCell_decides (cell : Json) {st : ParseState} (hst : Sized st.bc) :
    Decides Thrown (readCell useM12 st cell) (CellOk useM12 cell) (CellRejected useM12 cell) := by
  rw [readCell_eq]
  refine Decides.read fun name _ => ?_
  by_cases hdff : name = "SDFF_PP0"
  · have hplain (p : String) (hp : p ≠ "Y" ∧ p ≠ "X") :=
      pin_decides name hp (Or.inl (by rw [hdff]; decide)) cell
    rw [if_pos hdff]
    refine ((hplain "Q" (by decide)).bind fun q _ => (hplain "D" (by decide)).bind fun d _ =>
      Decides.pure _).congr ?_ ?_
    · simp [pinNames, hdff]
    · simp [pinNames, hdff, Stops]
  · rw [if_neg hdff]
    exact readGate_decides cell hst hdff

/-! ### Modules and documents -/

theorem recordOutputs_sized {bc bc' : ParsedBC} {gateIndex : Nat} {outs : List Nat}
    (hbc : Sized bc) (houts : ∀ o ∈ outs, o < 2 ^ 32)
    (h : recordOutputs bc gateIndex outs = .ok bc') : Sized bc' :=
  foldlM_inv (P := Sized) (fun _ o _ hs ho hstep => recordOutput_sized hs (houts o ho) hstep) hbc h

/-- The nets a gate drives are ones its connections name. -/
theorem cellRead_outs_lt {cell : Json} {read : GateRead}
    (h : cellRead useM12 cell = .ok (.gate read)) : ∀ o ∈ read.outs, o < 2 ^ 32 := by
  simp only [cellRead, bind_eq_ok] at h
  obtain ⟨_, _, _, _, gateName, _, h⟩ := h
  split at h
  · simp only [bind_eq_ok, pure_eq_ok] at h
    obtain ⟨_, _, _, _, h⟩ := h
    cases h
  · simp only [bind_eq_ok, pure_eq_ok, CellRead.gate.injEq] at h
    obtain ⟨y, hy, a, -, read', hops, rfl⟩ := h
    intro o ho
    have houts := operandsRead_outputs hops
    by_cases hfa : ({ name := gateName, in0 := a, out0 := y } : GateStruct).name = "fa"
    · obtain ⟨hx, hmem⟩ := houts.second hfa
      rw [hmem] at ho
      rcases List.mem_cons.mp ho with rfl | ho
      · exact pin_lt hy
      · exact List.mem_singleton.mp ho ▸ pin_lt hx
    · rw [houts.only hfa] at ho
      exact List.mem_singleton.mp ho ▸ pin_lt hy

theorem readPort_sized {st st' : ParseState} {port : Json} (hst : Sized st.bc)
    (h : readPort st port = .ok st') : Sized st'.bc := by
  rw [readPort_eq, bind_eq_ok] at h
  obtain ⟨direction, -, h⟩ := h
  split at h
  · simp only [bind_eq_ok, pure_eq_ok] at h
    obtain ⟨_, _, rfl⟩ := h
    exact hst
  · split at h
    · simp only [bind_eq_ok, pure_eq_ok] at h
      obtain ⟨_, _, rfl⟩ := h
      exact hst
    · cases h

theorem readCell_sized {st st' : ParseState} {cell : Json} (hst : Sized st.bc)
    (h : readCell useM12 st cell = .ok st') : Sized st'.bc := by
  obtain ⟨read, hread, hentered⟩ := readCell_ok h
  cases read with
  | dff q d =>
      obtain rfl := hentered
      exact hst
  | gate read =>
      obtain ⟨bc', hrec, rfl⟩ := hentered
      have hsized : Sized bc' := recordOutputs_sized hst (cellRead_outs_lt hread) hrec
      exact hsized

theorem readModule_decides (module : Json) {st : ParseState} (hst : Sized st.bc) :
    Decides Thrown (readModule useM12 st module) (ModuleOk useM12 module)
      (ModuleRejected useM12 module) := by
  unfold readModule
  refine (Decides.read fun ports _ => (Decides.foldlM (P := fun st => Sized st.bc)
    (fun st port _ => readPort_decides st port) (fun _ _ _ hs h => readPort_sized hs h)
    ports.items hst).bind fun st' hst' => Decides.read fun cells _ =>
      Decides.foldlM (P := fun st => Sized st.bc) (fun st cell hs => readCell_decides cell hs)
        (fun _ _ _ hs h => readCell_sized hs h) cells.items
        (foldlM_inv (P := fun st => Sized st.bc) (fun _ _ _ hs _ h => readPort_sized hs h) hst
          hst')).congr ?_ Iff.rfl
  constructor
  · rintro ⟨ports, hports, hall, hcells⟩
    exact ⟨⟨ports, hports, hall⟩, hcells⟩
  · rintro ⟨⟨ports, hports, hall⟩, hcells⟩
    exact ⟨ports, hports, hall, hcells⟩

theorem readModule_sized {st st' : ParseState} {module : Json} (hst : Sized st.bc)
    (h : readModule useM12 st module = .ok st') : Sized st'.bc := by
  simp only [readModule, bind_eq_ok] at h
  obtain ⟨_, _, st₁, hloop₁, _, _, hloop₂⟩ := h
  have hst₁ := foldlM_inv (P := fun st => Sized st.bc) (fun _ _ _ hs _ h => readPort_sized hs h)
    hst hloop₁
  exact foldlM_inv (P := fun st => Sized st.bc) (fun _ _ _ hs _ h => readCell_sized hs h)
    hst₁ hloop₂

theorem sized_empty : Sized {} := Nat.two_pow_pos 32

/-- **The constructor returns on a document that is fine, and throws on one that is
rejected.** -/
theorem parsedBC_decides (doc : Json) :
    Decides Thrown (parsedBC useM12 doc) (DocOk useM12 doc) (DocRejected useM12 doc) := by
  unfold parsedBC
  refine Decides.read fun modules _ => ((Decides.foldlM (P := fun st => Sized st.bc)
    (fun st module hs => readModule_decides module hs) (fun _ _ _ hs h => readModule_sized hs h)
    (s := {}) modules.items sized_empty).bind fun st _ => Decides.pure _).congr
    (and_iff_left trivial) (by simp)

/-! ### Operands -/

/-- The operands a gate of the type has, with the pins they are to come from. -/
def usedOperands (useM12 : Bool) (gate : GateStruct) : List (String × Nat) :=
  if gate.name = "NOT" then [("A", gate.in0)]
  else if gate.name = "MUX" ∨ gate.name = "NMUX" then
    [("A", gate.in0), ("B", gate.in1), ("S", gate.in2)]
  else if gate.name = "fa" ∨ useM12 ∧ (gate.name = "AOI3" ∨ gate.name = "OAI3") then
    [("A", gate.in0), ("B", gate.in1), ("C", gate.in2)]
  else [("A", gate.in0), ("B", gate.in1)]

/-- Every operand of the entry is the net the cell's connection names. -/
def OperandsRead (useM12 : Bool) (cell : Json) (gate : GateStruct) : Prop :=
  ∀ operand ∈ usedOperands useM12 gate, pin cell operand.1 = .ok operand.2

theorem operandsRead_operands {cell : Json} {gate : GateStruct} {read : GateRead}
    (hA : pin cell "A" = .ok gate.in0) (h : operandsRead useM12 cell gate = .ok read) :
    OperandsRead useM12 cell read.gate := by
  unfold operandsRead at h
  unfold OperandsRead usedOperands
  by_cases hnot : gate.name = "NOT"
  · rw [if_pos hnot] at h
    obtain rfl := pure_eq_ok.mp h
    simpa [hnot] using hA
  rw [if_neg hnot] at h
  obtain ⟨b, hb, h⟩ := bind_eq_ok.mp h
  by_cases hmux : gate.name = "MUX" ∨ gate.name = "NMUX"
  · rw [if_pos hmux] at h
    obtain ⟨s, hs, h⟩ := bind_eq_ok.mp h
    obtain rfl := pure_eq_ok.mp h
    simp [hnot, hmux, hA, hb, hs]
  rw [if_neg hmux] at h
  by_cases hfa : gate.name = "fa"
  · rw [if_pos hfa] at h
    simp only [bind_eq_ok] at h
    obtain ⟨x, -, isString, -, h⟩ := h
    split at h
    · obtain rfl := pure_eq_ok.mp h
      simp [hA, hb]
    · obtain ⟨c, hc, h⟩ := bind_eq_ok.mp h
      obtain rfl := pure_eq_ok.mp h
      simp [hfa, hA, hb, hc]
  rw [if_neg hfa] at h
  by_cases hm12 : useM12 ∧ (gate.name = "AOI3" ∨ gate.name = "OAI3")
  · rw [if_pos hm12] at h
    obtain ⟨c, hc, h⟩ := bind_eq_ok.mp h
    obtain rfl := pure_eq_ok.mp h
    simp [hnot, hmux, hm12, hA, hb, hc]
  · rw [if_neg hm12] at h
    obtain rfl := pure_eq_ok.mp h
    simp [hnot, hmux, hfa, hm12, hA, hb]

theorem cellRead_operands {cell : Json} {read : GateRead}
    (h : cellRead useM12 cell = .ok (.gate read)) : OperandsRead useM12 cell read.gate := by
  simp only [cellRead, bind_eq_ok] at h
  obtain ⟨_, _, _, _, _, _, h⟩ := h
  split at h
  · simp only [bind_eq_ok, pure_eq_ok] at h
    obtain ⟨_, _, _, _, h⟩ := h
    cases h
  · simp only [bind_eq_ok, pure_eq_ok, CellRead.gate.injEq] at h
    obtain ⟨y, -, a, ha, read', hops, rfl⟩ := h
    exact operandsRead_operands ha hops

end YosysJSONparser

end Tangor
