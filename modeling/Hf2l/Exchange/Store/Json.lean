import Mathlib.Data.Rat.Defs

/-!
# `Hf2l.Exchange.Store.Json`: the JSON values the exchange stores

Record metadata, member bindings and event payloads are JSON documents. `Json` is their
value type and `Fields` is the body of a JSON object. `Json.eqv` is the `==` of the
decoded values: object fields compare without regard to their order, and the numbers
`true`, `1` and `1.0` are equal.
-/

set_option autoImplicit false

namespace Hf2l.Exchange

/-- A decoded JSON value. Integers and floats are kept apart, because the profiles test
for an integer. -/
inductive Json where
  | null
  | bool (b : Bool)
  | int (n : Int)
  | float (q : Rat)
  | str (s : String)
  | arr (items : List Json)
  | obj (fields : List (String × Json))
deriving Inhabited

/-- The body of a JSON object. -/
abbrev Fields := List (String × Json)

namespace Json

/-- The value a number or a truth value compares as. -/
def numeric : Json → Option Rat
  | .bool b => some (if b then 1 else 0)
  | .int n => some n
  | .float q => some q
  | _ => none

mutual

/-- Equality of decoded values. -/
def eqv : Json → Json → Bool
  | .null, .null => true
  | .str a, .str b => a == b
  | .arr xs, .arr ys => eqvItems xs ys
  | .obj xs, .obj ys => xs.length == ys.length && eqvFields xs ys
  | .bool b, y => y.numeric == some (if b then 1 else 0)
  | .int n, y => y.numeric == some (n : Rat)
  | .float q, y => y.numeric == some q
  | _, _ => false

def eqvItems : List Json → List Json → Bool
  | [], [] => true
  | x :: xs, y :: ys => eqv x y && eqvItems xs ys
  | _, _ => false

/-- Every field of the first object is in the second with an equal value. -/
def eqvFields : List (String × Json) → List (String × Json) → Bool
  | [], _ => true
  | (k, v) :: xs, ys =>
    (match ys.lookup k with
      | some w => eqv v w
      | none => false) && eqvFields xs ys

end

/-- The text of a JSON string. -/
def str? : Json → Option String
  | .str s => some s
  | _ => none

/-- The items of a JSON array of strings. -/
def strings? : Json → Option (List String)
  | .arr items => items.mapM str?
  | _ => none

mutual

/-- The nesting depth of a value: a scalar has depth 0. -/
def depth : Json → Nat
  | .arr items => depthItems items
  | .obj fields => depthFields fields
  | _ => 0

def depthItems : List Json → Nat
  | [] => 0
  | x :: xs => max (depth x + 1) (depthItems xs)

def depthFields : List (String × Json) → Nat
  | [] => 0
  | (_, v) :: xs => max (depth v + 1) (depthFields xs)

end

end Json

namespace Fields

/-- `metadata.get(name)`: an absent field and an explicit null both read as `none`. -/
def get (fields : Fields) (name : String) : Option Json :=
  match fields.lookup name with
  | some .null => none
  | found => found

/-- Equality of two objects. -/
def eqv (a b : Fields) : Bool := Json.eqv (.obj a) (.obj b)

end Fields

end Hf2l.Exchange
