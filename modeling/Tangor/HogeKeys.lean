/-
The key layout of the FPGA path, the loops of `HOGEinit` in `src/hogewrapper.cpp`.

The kernel reads the keys over several memory buses, a fixed number of words a cycle on
each, so the rows of the key-switching key and of the bootstrapping key are cut into bus
words and dealt out.  Two arrays are filled, `ikskaligned` and `bknttaligned`, both of
them initialised with zeros.

The indices of a target that are loop variables are inside the array by the bounds of
their loops.  Those that are computed are looked at by `checked`: outside its array an
index has no defined effect.
-/
import Tangor.Scatter
import Mathlib.Data.List.ProdSigma
import Mathlib.Data.List.FinRange

namespace Tangor

open Scatter

/-! ### Bus geometry -/

def buswidthlb : Nat := 9

def buswords : Nat := 2 ^ (buswidthlb - 6)

def iksknumbus : Nat := 10

def totaliksknumbus : Nat := 40

def bknumbus : Nat := 8

def cyclebit : Nat := 5

def numcycle : Nat := 2 ^ cyclebit

/-- The parameters of TFHEpp the arrays are sized by: a row of the bootstrapping key fills
the buses, and a row of the key-switching key is not longer than what they take. -/
structure HogeShape where
  /-- `lvl1param::n`. -/
  lvl1n : Nat
  /-- `lvl1param::l`. -/
  lvl1l : Nat
  /-- `lvl0param::n`. -/
  lvl0n : Nat
  /-- `lvl10param::t`. -/
  lvl10t : Nat
  /-- `lvl10param::basebit`. -/
  lvl10basebit : Nat
  /-- The bits of `lvl0param::T`. -/
  digits : Nat
  rows : lvl1n = numcycle * (bknumbus / 2) * buswords
  fits : lvl0n + 1 ≤ totaliksknumbus * (2 ^ buswidthlb / digits)

variable (s : HogeShape)

def HogeShape.wordsinbus : Nat := 2 ^ buswidthlb / s.digits

/-! ### The keys and their layouts -/

/-- `[i][j][k]` of the key-switching key, and a word of the row there. -/
abbrev IkskWord :=
  Fin s.lvl1n × Fin s.lvl10t × Fin (2 ^ s.lvl10basebit - 1) × Fin (s.lvl0n + 1)

/-- `[i][l][k]` of the bootstrapping key, and a word of the row there. -/
abbrev BknttWord := Fin s.lvl0n × Fin (2 * s.lvl1l) × Fin 2 × Fin s.lvl1n

/-- The indices of `ikskaligned`. -/
abbrev IkskPosition :=
  Fin iksknumbus × Fin s.lvl1n × Fin s.lvl10t × Fin (2 ^ s.lvl10basebit - 1) ×
    Fin (totaliksknumbus / iksknumbus) × Fin s.wordsinbus

/-- The indices of `bknttaligned`. -/
abbrev BknttPosition :=
  Fin bknumbus × Fin s.lvl0n × Fin (2 * s.lvl1l) × Fin numcycle × Fin buswords

/-- The two keys of `TFHEpp::EvalKey` the FPGA has, of words `T` and `U`. -/
structure HogeKey (T U : Type) where
  iksk : IkskWord s → T
  bkntt : BknttWord s → U

/-! ### The loops -/

/-- An index that has to be below `size`. -/
def checked (size i : Nat) : Option (Fin size) := if h : i < size then some ⟨i, h⟩ else none

/-- `i`, `j`, `k`, `l`, `m` and `n` of the first loop nest. -/
abbrev IkskRound :=
  Fin s.lvl1n × Fin s.lvl10t × Fin (2 ^ s.lvl10basebit - 1) × Fin s.wordsinbus ×
    Fin iksknumbus × Fin (totaliksknumbus / iksknumbus)

def ikskRounds : List (IkskRound s) :=
  List.finRange _ ×ˢ List.finRange _ ×ˢ List.finRange _ ×ˢ List.finRange _ ×ˢ
    List.finRange _ ×ˢ List.finRange _

/-- `ikskaligned[m][i][j][k][n][l]`. -/
def ikskTarget : IkskRound s → IkskPosition s
  | (i, j, k, l, m, n) => (m, i, j, k, n, l)

/-- `[i][j][k][n*iksknumbus*wordsinbus+m*wordsinbus+l]`. -/
def ikskRead : IkskRound s → Option (IkskWord s)
  | (i, j, k, l, m, n) =>
      (checked (s.lvl0n + 1) (n * iksknumbus * s.wordsinbus + m * s.wordsinbus + l)).map
        fun word => (i, j, k, word)

/-- `k`, `bus`, `i`, `l`, `cycle` and `word` of the second loop nest. -/
abbrev BknttRound :=
  Fin 2 × Fin (bknumbus / 2) × Fin s.lvl0n × Fin (2 * s.lvl1l) × Fin numcycle × Fin buswords

def bknttRounds : List (BknttRound s) :=
  List.finRange _ ×ˢ List.finRange _ ×ˢ List.finRange _ ×ˢ List.finRange _ ×ˢ
    List.finRange _ ×ˢ List.finRange _

/-- `bknttaligned[k*bknumbus/2+bus][i][l][cycle][word]`. -/
def bknttTarget : BknttRound s → Option (BknttPosition s)
  | (k, bus, i, l, cycle, word) =>
      (checked bknumbus (k * bknumbus / 2 + bus)).map fun bus => (bus, i, l, cycle, word)

/-- `[i][l][k][cycle*bknumbus/2*buswords+bus*buswords+word]`. -/
def bknttRead : BknttRound s → Option (BknttWord s)
  | (k, bus, i, l, cycle, word) =>
      (checked s.lvl1n (cycle * bknumbus / 2 * buswords + bus * buswords + word)).map
        fun word => (i, l, k, word)

variable {s} {T U : Type} [Zero T] [Zero U]

/-- The two loop nests of `HOGEinit`. -/
def HOGEinit (key : HogeKey s T U) : Option ((IkskPosition s → T) × (BknttPosition s → U)) := do
  let ikskaligned ← scatter (fun round => some (ikskTarget s round))
    (fun round => (ikskRead s round).map key.iksk) (ikskRounds s) fun _ => 0
  let bknttaligned ← scatter (bknttTarget s)
    (fun round => (bknttRead s round).map key.bkntt) (bknttRounds s) fun _ => 0
  return (ikskaligned, bknttaligned)

end Tangor
