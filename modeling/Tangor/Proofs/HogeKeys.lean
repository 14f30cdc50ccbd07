/-
Where the words of the keys are in the layouts of `HOGEinit`.

A row index has three digits: of a key-switching row the group of buses, the bus and the
word in it, of a bootstrapping row the cycle, the bus and the word.  The computed indices
are those of the digits, so every word has the position `ikskPosition` or
`bknttPosition` and is read back from there.

The bootstrapping rows fill the buses.  The key-switching rows may be shorter, and then the
loops read on past their end: `keysLaidOut_iff`.
-/
import Tangor.HogeKeys

namespace Tangor

open Scatter

variable {s : HogeShape}

theorem checked_eq_some {size i : Nat} {x : Fin size} : checked size i = some x ↔ i = x := by
  unfold checked
  split
  · rw [Option.some.injEq, Fin.ext_iff]
  · exact iff_of_false nofun fun h => absurd x.isLt (by omega)

theorem checked_isSome {size i : Nat} : (checked size i).isSome ↔ i < size := by
  unfold checked
  split <;> simp_all

/-! ### The key-switching key -/

/-- The round that writes a position. -/
def ikskRound : IkskPosition s → IkskRound s
  | (m, i, j, k, n, l) => (i, j, k, l, m, n)

/-- The word a position stands for. -/
def ikskSource (p : IkskPosition s) : Option (IkskWord s) := ikskRead s (ikskRound p)

/-- Where a word of the key-switching key is. -/
def ikskPosition : IkskWord s → IkskPosition s
  | (i, j, k, word) =>
      have hword : (word : Nat) < totaliksknumbus * s.wordsinbus :=
        Nat.lt_of_lt_of_le word.isLt s.fits
      (⟨word / s.wordsinbus % iksknumbus, Nat.mod_lt _ (by decide)⟩, i, j, k,
        ⟨word / (iksknumbus * s.wordsinbus), Nat.div_lt_of_lt_mul (by
          rw [Nat.mul_right_comm]
          exact hword)⟩,
        ⟨word % s.wordsinbus, Nat.mod_lt _ (Nat.pos_of_ne_zero fun h => by simp [h] at hword)⟩)

theorem ikskSource_eq_some {p : IkskPosition s} {x : IkskWord s} :
    ikskSource p = some x ↔ p = ikskPosition x := by
  obtain ⟨m, i, j, k, n, l⟩ := p
  obtain ⟨i', j', k', word⟩ := x
  have hdigits := eq_digits (n := n) m.isLt l.isLt (i := word)
  simp only [ikskSource, ikskRound, ikskRead, ikskPosition, Option.map_eq_some_iff,
    checked_eq_some, Prod.mk.injEq, Fin.ext_iff]
  constructor
  · rintro ⟨w, hw, hi, hj, hk, hword⟩
    obtain ⟨hn, hm, hl⟩ := hdigits.mp (hw.trans hword)
    exact ⟨hm, hi, hj, hk, hn, hl⟩
  · rintro ⟨hm, hi, hj, hk, hn, hl⟩
    exact ⟨word, hdigits.mpr ⟨hn, hm, hl⟩, hi, hj, hk, rfl⟩

theorem mem_ikskRounds (round : IkskRound s) : round ∈ ikskRounds s := by
  obtain ⟨i, j, k, l, m, n⟩ := round
  simp [ikskRounds, List.mem_product]

theorem ikskRead_isSome {i : Fin s.lvl1n} {j : Fin s.lvl10t} {k : Fin (2 ^ s.lvl10basebit - 1)}
    {l : Fin s.wordsinbus} {m : Fin iksknumbus} {n : Fin (totaliksknumbus / iksknumbus)} :
    (ikskRead s (i, j, k, l, m, n)).isSome ↔
      n * iksknumbus * s.wordsinbus + m * s.wordsinbus + l < s.lvl0n + 1 := by
  rw [ikskRead, Option.isSome_map, checked_isSome]

/-- **The reads of the first loop nest stay inside the rows exactly when the rows fill the
buses**, unless there is no row. -/
theorem ikskRead_defined :
    (∀ round ∈ ikskRounds s, (ikskRead s round).isSome) ↔
      s.lvl0n + 1 = totaliksknumbus * s.wordsinbus ∨ s.lvl10t = 0 ∨ s.lvl10basebit = 0 := by
  constructor
  · intro hall
    by_contra hcond
    obtain ⟨hfull, ht, hbase⟩ : ¬ s.lvl0n + 1 = totaliksknumbus * s.wordsinbus ∧
        ¬ s.lvl10t = 0 ∧ ¬ s.lvl10basebit = 0 := by simpa using hcond
    have hlt : s.lvl0n + 1 < totaliksknumbus * s.wordsinbus := lt_of_le_of_ne s.fits hfull
    have hlvl1n : 0 < s.lvl1n := by rw [s.rows]; decide
    have hpow : 0 < 2 ^ s.lvl10basebit - 1 :=
      Nat.sub_pos_of_lt (Nat.one_lt_two_pow hbase)
    have hbus : 0 < s.wordsinbus := Nat.pos_of_ne_zero fun h => by simp [h] at hlt
    -- The round that is to write the first position after the row.
    have hm : (s.lvl0n + 1) / s.wordsinbus % iksknumbus < iksknumbus := Nat.mod_lt _ (by decide)
    have hn : (s.lvl0n + 1) / (iksknumbus * s.wordsinbus) < totaliksknumbus / iksknumbus :=
      Nat.div_lt_of_lt_mul (by rwa [Nat.mul_right_comm])
    have hl : (s.lvl0n + 1) % s.wordsinbus < s.wordsinbus := Nat.mod_lt _ hbus
    have hread := ikskRead_isSome.mp (hall (⟨0, hlvl1n⟩, ⟨0, Nat.pos_of_ne_zero ht⟩, ⟨0, hpow⟩,
      ⟨_, hl⟩, ⟨_, hm⟩, ⟨_, hn⟩) (mem_ikskRounds _))
    rw [(eq_digits hm hl).mpr ⟨rfl, rfl, rfl⟩] at hread
    exact Nat.lt_irrefl _ hread
  · rintro hcond ⟨i, j, k, l, m, n⟩ -
    rcases hcond with hfull | ht | hbase
    · rw [ikskRead_isSome, hfull]
      exact digits_lt n.isLt m.isLt l.isLt
    · exact absurd j.isLt (by simp [ht])
    · exact absurd k.isLt (by simp [hbase])

theorem iksk_laidOut {T : Type} [Zero T] (words : IkskWord s → T)
    (hdefined : ∀ round ∈ ikskRounds s, (ikskRead s round).isSome) :
    ∃ f, scatter (fun round => some (ikskTarget s round))
        (fun round => (ikskRead s round).map words) (ikskRounds s) (fun _ => 0) = some f ∧
      LaidOut ikskSource ikskPosition words f := by
  refine scatter_laidOut words (fun _ _ => rfl) hdefined ?_ ?_ fun p x => ikskSource_eq_some
  · rintro ⟨i, j, k, l, m, n⟩ - p hp
    obtain rfl := Option.some.inj hp
    rfl
  · rintro ⟨m, i, j, k, n, l⟩
    exact ⟨(i, j, k, l, m, n), mem_ikskRounds _, rfl⟩

/-! ### The bootstrapping key -/

/-- The round that writes a position. -/
def bknttRound : BknttPosition s → BknttRound s
  | (bus, i, l, cycle, word) =>
      (⟨bus / (bknumbus / 2),
          Nat.div_lt_of_lt_mul (show (bus : Nat) < bknumbus / 2 * 2 from bus.isLt)⟩,
        ⟨bus % (bknumbus / 2), Nat.mod_lt _ (by decide)⟩, i, l, cycle, word)

/-- The word a position stands for. -/
def bknttSource (p : BknttPosition s) : Option (BknttWord s) := bknttRead s (bknttRound p)

/-- Where a word of the bootstrapping key is. -/
def bknttPosition : BknttWord s → BknttPosition s
  | (i, l, k, word) =>
      have hword : (word : Nat) < bknumbus / 2 * buswords * numcycle :=
        Nat.lt_of_lt_of_eq word.isLt s.rows
      (⟨k * (bknumbus / 2) + word / buswords % (bknumbus / 2), by
          have hbus : (word : Nat) / buswords % (bknumbus / 2) < bknumbus / 2 :=
            Nat.mod_lt _ (by decide)
          simp only [bknumbus] at hbus ⊢
          omega⟩, i, l,
        ⟨word / (bknumbus / 2 * buswords), Nat.div_lt_of_lt_mul hword⟩,
        ⟨word % buswords, Nat.mod_lt _ (by decide)⟩)

theorem mem_bknttRounds (round : BknttRound s) : round ∈ bknttRounds s := by
  obtain ⟨k, bus, i, l, cycle, word⟩ := round
  simp [bknttRounds, List.mem_product]

theorem half_bus (k : Nat) : k * bknumbus / 2 = k * (bknumbus / 2) := by
  simp only [bknumbus]
  omega

/-- A bus number is that of its key polynomial and of the bus within it. -/
theorem bknttTarget_eq (k : Fin 2) (bus : Fin (bknumbus / 2)) (i : Fin s.lvl0n)
    (l : Fin (2 * s.lvl1l)) (cycle : Fin numcycle) (word : Fin buswords) :
    ∃ h, bknttTarget s (k, bus, i, l, cycle, word) =
      some (⟨k * (bknumbus / 2) + bus, h⟩, i, l, cycle, word) := by
  have h : k * (bknumbus / 2) + (bus : Nat) < bknumbus := by
    have hk := k.isLt
    have hbus := bus.isLt
    simp only [bknumbus] at hbus ⊢
    omega
  exact ⟨h, by simp [bknttTarget, half_bus, checked, h]⟩

theorem bknttRead_isSome {k : Fin 2} {bus : Fin (bknumbus / 2)} {i : Fin s.lvl0n}
    {l : Fin (2 * s.lvl1l)} {cycle : Fin numcycle} {word : Fin buswords} :
    (bknttRead s (k, bus, i, l, cycle, word)).isSome := by
  have hlt := digits_lt cycle.isLt bus.isLt word.isLt
  rw [← s.rows] at hlt
  rw [bknttRead, Option.isSome_map, checked_isSome, half_bus]
  exact hlt

theorem bknttSource_eq_some {p : BknttPosition s} {x : BknttWord s} :
    bknttSource p = some x ↔ p = bknttPosition x := by
  obtain ⟨bus, i, l, cycle, word'⟩ := p
  obtain ⟨i', l', k, word⟩ := x
  have hlow : (bus : Nat) % (bknumbus / 2) < bknumbus / 2 := Nat.mod_lt _ (by decide)
  have hdigits := eq_digits (n := cycle) hlow word'.isLt (i := word)
  -- The bus number is that of the polynomial and of the bus within it.
  have hbus : (bus : Nat) / (bknumbus / 2) = k ∧ (bus : Nat) % (bknumbus / 2) =
      word / buswords % (bknumbus / 2) ↔
      (bus : Nat) = k * (bknumbus / 2) + word / buswords % (bknumbus / 2) := by
    simp only [bknumbus]
    omega
  simp only [bknttSource, bknttRound, bknttRead, bknttPosition, half_bus, Option.map_eq_some_iff,
    checked_eq_some, Prod.mk.injEq, Fin.ext_iff]
  constructor
  · rintro ⟨w, hw, hi, hl, hk, hword⟩
    obtain ⟨hcycle, hlow', hword'⟩ := hdigits.mp (hw.trans hword)
    exact ⟨hbus.mp ⟨hk, hlow'⟩, hi, hl, hcycle, hword'⟩
  · rintro ⟨hb, hi, hl, hcycle, hword'⟩
    obtain ⟨hk, hlow'⟩ := hbus.mpr hb
    exact ⟨word, hdigits.mpr ⟨hcycle, hlow', hword'⟩, hi, hl, hk, rfl⟩

/-- A position is written by its round. -/
theorem bknttTarget_eq_some {r : BknttRound s} {p : BknttPosition s} :
    bknttTarget s r = some p ↔ bknttRound p = r := by
  obtain ⟨k, bus, i, l, cycle, word⟩ := r
  obtain ⟨bus', i', l', cycle', word'⟩ := p
  obtain ⟨h, htarget⟩ := bknttTarget_eq k bus i l cycle word
  have hbus := bus.isLt
  have hsplit : k * (bknumbus / 2) + (bus : Nat) = bus' ↔
      (bus' : Nat) / (bknumbus / 2) = k ∧ (bus' : Nat) % (bknumbus / 2) = bus := by
    simp only [bknumbus] at hbus ⊢
    omega
  rw [htarget]
  simp only [bknttRound, Option.some.injEq, Prod.mk.injEq, Fin.ext_iff, hsplit]
  grind

theorem bkntt_laidOut {U : Type} [Zero U] (words : BknttWord s → U) :
    ∃ f, scatter (bknttTarget s) (fun round => (bknttRead s round).map words) (bknttRounds s)
        (fun _ => 0) = some f ∧ LaidOut bknttSource bknttPosition words f := by
  refine scatter_laidOut words ?_ (fun _ _ => bknttRead_isSome) ?_ ?_ fun p x =>
    bknttSource_eq_some
  · rintro ⟨k, bus, i, l, cycle, word⟩ -
    obtain ⟨h, htarget⟩ := bknttTarget_eq k bus i l cycle word
    rw [htarget]
    rfl
  · intro r _ p hp
    rw [bknttSource, bknttTarget_eq_some.mp hp]
  · intro p
    exact ⟨bknttRound p, mem_bknttRounds _, bknttTarget_eq_some.mpr rfl⟩

/-! ### Both keys -/

variable {T U : Type} [Zero T] [Zero U]

/-- `HOGEinit` gets through, and every word of both keys has its own position in the layouts,
which hold nothing else. -/
def KeysLaidOut (key : HogeKey s T U) : Prop :=
  ∃ ikskaligned bknttaligned, HOGEinit key = some (ikskaligned, bknttaligned) ∧
    LaidOut ikskSource ikskPosition key.iksk ikskaligned ∧
    LaidOut bknttSource bknttPosition key.bkntt bknttaligned

theorem HOGEinit_isSome (key : HogeKey s T U) :
    (HOGEinit key).isSome ↔ ∀ round ∈ ikskRounds s, (ikskRead s round).isSome := by
  obtain ⟨g, hg, -⟩ := bkntt_laidOut key.bkntt
  have hinit : (HOGEinit key).isSome ↔
      (scatter (fun round => some (ikskTarget s round))
        (fun round => (ikskRead s round).map key.iksk) (ikskRounds s) fun _ => 0).isSome := by
    simp only [HOGEinit, hg]
    cases scatter (fun round => some (ikskTarget s round))
      (fun round => (ikskRead s round).map key.iksk) (ikskRounds s) fun _ => 0 <;> simp
  rw [hinit, scatter_isSome]
  simp

/-- **The keys are laid out exactly when the key-switching rows fill the buses**, or there are
none. -/
theorem keysLaidOut_iff (key : HogeKey s T U) :
    KeysLaidOut key ↔
      s.lvl0n + 1 = totaliksknumbus * s.wordsinbus ∨ s.lvl10t = 0 ∨ s.lvl10basebit = 0 := by
  rw [← ikskRead_defined]
  constructor
  · rintro ⟨ikskaligned, bknttaligned, hinit, -, -⟩
    exact (HOGEinit_isSome key).mp (Option.isSome_iff_exists.mpr ⟨_, hinit⟩)
  · intro hdefined
    obtain ⟨f, hf, hlaid⟩ := iksk_laidOut key.iksk hdefined
    obtain ⟨g, hg, hlaid'⟩ := bkntt_laidOut key.bkntt
    refine ⟨f, g, ?_, hlaid, hlaid'⟩
    simp only [HOGEinit, hf, hg, Option.bind_eq_bind, Option.bind_some]
    rfl

/-- 637 words of 32 bits a row, where the buses take 640. -/
def shortRows : HogeShape where
  lvl1n := 1024
  lvl1l := 3
  lvl0n := 636
  lvl10t := 5
  lvl10basebit := 2
  digits := 32
  rows := by decide
  fits := by decide

def shortKey : HogeKey shortRows Nat Nat where
  iksk _ := 1
  bkntt _ := 1

/-- The last bus is to get words that no row has. -/
theorem shortKey_undefined : HOGEinit shortKey = none ∧ ¬ KeysLaidOut shortKey := by
  have hnone : HOGEinit shortKey = none := by
    rw [← Option.not_isSome_iff_eq_none, HOGEinit_isSome, ikskRead_defined]
    decide
  refine ⟨hnone, ?_⟩
  rintro ⟨_, _, hinit, -, -⟩
  rw [hnone] at hinit
  exact absurd hinit nofun

end Tangor
