/-
JSON documents as `nlohmann::json` hands them to the netlist parser.

A document keeps the members of an object in the order of the text.  The library
stores them in a `std::map`, so iteration and lookup go through `objectMap`: sorted
by key, and of two members with one key the later one counts.

Every document is read through a `const` reference.  That decides what a bad access
does: `operator[]` throws on a value of the wrong kind, but on an object without the
key, or past the end of an array, nothing is promised at all.  `Fault` keeps the two
apart, since an exception stops the program and undefined behaviour does not.

A string is the sequence of its bytes, one `Char` a byte.
-/
import Mathlib

namespace Tangor

/-- How an operation of the program can go wrong. -/
inductive Fault where
  /-- An exception. -/
  | thrown (what : String)
  /-- The language or the library leaves the behaviour undefined. -/
  | undefined (what : String)
deriving DecidableEq, Repr

/-- A computation that may end in a fault. -/
abbrev Result := Except Fault

/-- A parsed JSON document. -/
inductive Json where
  | null
  | bool (b : Bool)
  | int (n : Int)
  /-- A number with a fraction or an exponent, as its value rounded towards zero. -/
  | float (truncated : Int)
  | str (s : String)
  | arr (items : List Json)
  /-- The members in the order of the text. -/
  | obj (members : List (String × Json))

section ObjectMap

variable {α : Type*}

/-- `map[key] = value` on a map kept as its sorted members. -/
def insertMember (key : String) (value : α) : List (String × α) → List (String × α)
  | [] => [(key, value)]
  | (k, v) :: rest =>
      if key < k then (key, value) :: (k, v) :: rest
      else if key = k then (key, value) :: rest
      else (k, v) :: insertMember key value rest

/-- The `std::map` that the members of an object are stored in. -/
def objectMap (members : List (String × α)) : List (String × α) :=
  members.foldl (fun map kv => insertMember kv.1 kv.2 map) []

end ObjectMap

namespace Json

/-- What a range-based `for` over the value visits. -/
def items : Json → List Json
  | .null => []
  | .arr xs => xs
  | .obj members => (objectMap members).map Prod.snd
  | j => [j]

/-- `operator[]` with a key, on a `const` value. -/
def «at» (j : Json) (key : String) : Result Json :=
  match j with
  | .obj members =>
      match (objectMap members).lookup key with
      | some v => .ok v
      | none => .error (.undefined ("no member " ++ key))
  | _ => .error (.thrown "cannot use operator[] with a string argument")

/-- `operator[]` with an index, on a `const` value. -/
def index (j : Json) (i : Nat) : Result Json :=
  match j with
  | .arr xs =>
      match xs[i]? with
      | some v => .ok v
      | none => .error (.undefined "index past the end of an array")
  | _ => .error (.thrown "cannot use operator[] with a numeric argument")

/-- `get<std::string>()`. -/
def getString : Json → Result String
  | .str s => .ok s
  | _ => .error (.thrown "type must be string")

def isString : Json → Bool
  | .str _ => true
  | _ => false

/-- The 32-bit unsigned value an integer converts to. -/
def toUint (n : Int) : Nat := (n % 2 ^ 32).toNat

/-- `get<uint>()`: integers of 64 bits convert modulo `2^32`, floating-point numbers
only when they fit. -/
def getUint : Json → Result Nat
  | .int n =>
      if -2 ^ 63 ≤ n ∧ n < 2 ^ 64 then .ok (toUint n)
      else .error (.undefined "number out of range")
  | .float t =>
      if 0 ≤ t ∧ t < 2 ^ 32 then .ok t.toNat
      else .error (.undefined "floating-point number out of range")
  | .bool b => .ok b.toNat
  | _ => .error (.thrown "type must be number")

/-- `get<int>()`. -/
def getInt : Json → Result Int
  | .int n =>
      if -2 ^ 63 ≤ n ∧ n < 2 ^ 64 then .ok (n.bmod (2 ^ 32))
      else .error (.undefined "number out of range")
  | .float t =>
      if -2 ^ 31 ≤ t ∧ t < 2 ^ 31 then .ok t
      else .error (.undefined "floating-point number out of range")
  | .bool b => .ok b.toNat
  | _ => .error (.thrown "type must be number")

/-- `get<std::vector<int>>()`. -/
def getIntVector : Json → Result (List Int)
  | .arr xs => xs.mapM getInt
  | _ => .error (.thrown "type must be array")

end Json

end Tangor
