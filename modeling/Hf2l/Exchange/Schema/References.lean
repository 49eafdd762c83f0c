import Hf2l.Exchange.Domain.CanonicalRoundTrip
import Hf2l.Exchange.Store.Rows
import Hf2l.Lib.Unfolding
import Hf2l.Lib.Utf8

/-!
# `Hf2l.Exchange.Schema.References`: the references of an accepted schema

`validate_schema` (`schemas.py`) and `ValidateSchema` (`internal/schema/schema.go`) walk a schema
and follow its references, to refuse one that is nested too deep or refers to itself. They look a
reference up as it is written. An evaluator decodes the percent signs of a URI fragment first, as
`urllib.parse.unquote` does: it leaves alone what is no percent-encoding, and replaces bytes that
are no text.

`steps` is what an evaluator unfolds: the subschemas of a schema, at the keywords that `walkSchemas`
has, and the target of its reference. `schema_references_bounded` says that an accepted schema is
bounded for it if every reference that it comes to has the target that the checker has walked, which
is so for references without a percent sign. `selfReference` is accepted and is not bounded. The
condition is not necessary: a reference may well decode to another target that is harmless.

Parameters: the size of the canonical text in Python, which characters outside of ASCII `int` takes
for spaces and digits, and what the libraries check of a schema after the walk.
-/

set_option autoImplicit false

namespace Hf2l.Exchange.Schema

open Lib.Json Lib.Unfolding
open Lib.Checked (bind_ok exists_unit)
open Exchange.Domain (canonical decodeJSON)

def dialect : String := "https://json-schema.org/draft/2020-12/schema"

def maxSchemaBytes : Nat := 65536

/-! ### Pointers -/

/-- `replace` of two characters by one. -/
def replacePair (a b c : Char) : List Char → List Char
  | x :: y :: rest =>
    if x = a ∧ y = b then c :: replacePair a b c rest else x :: replacePair a b c (y :: rest)
  | rest => rest

/-- A token of a JSON pointer, unescaped. -/
def unescape (token : List Char) : List Char :=
  replacePair '~' '0' '~' (replacePair '~' '1' '/' token)

/-- The member or item that a token names. A negative index counts from the end. -/
def child (index : List Char → Option Int) (token : List Char) : Value → Option Value
  | .arr items => do
    let i ← index token
    let j := if i < 0 then i + items.length else i
    if j < 0 then none else items[j.toNat]?
  | .obj fields => fields.lookup (String.ofList token)
  | _ => none

/-- What a pointer without its first slash names. -/
def follow (index : List Char → Option Int) (root : Value) (pointer : List Char) : Option Value :=
  (pointer.splitOn '/').foldlM (fun v raw => child index (unescape raw) v) root

/-- `strconv.Atoi`. -/
def atoi (token : List Char) : Option Int :=
  let digits := match token with
    | '-' :: ds | '+' :: ds | ds => ds
  if digits = [] ∨ ¬ digits.all Char.isDigit then none
  else
    let n : Int := if token.head? = some '-' then
      -(digitsValue digits : Int) else digitsValue digits
    if -9223372036854775808 ≤ n ∧ n ≤ 9223372036854775807 then some n else none

section
variable (unicodeSpace : Char → Bool) (unicodeDigit : Char → Option Nat)

def pythonSpace (c : Char) : Bool :=
  if c.toNat < 128 then (9 ≤ c.toNat && c.toNat ≤ 13) || (28 ≤ c.toNat && c.toNat ≤ 32)
  else unicodeSpace c

def pythonDigit (c : Char) : Option Nat :=
  if c.toNat < 128 then if c.isDigit then some (c.toNat - 48) else none else unicodeDigit c

/-- Digits, with single underscores between them. -/
def pythonDigits : List Char → Option (List Nat)
  | [] => none
  | [c] => (pythonDigit unicodeDigit c).map fun d => [d]
  | c :: '_' :: rest => do
    let d ← pythonDigit unicodeDigit c
    let ds ← pythonDigits rest
    return d :: ds
  | c :: rest => do
    let d ← pythonDigit unicodeDigit c
    let ds ← pythonDigits rest
    return d :: ds

/-- `int`, of a string. -/
def pythonInt (token : List Char) : Option Int :=
  let text := ((token.dropWhile (pythonSpace unicodeSpace)).reverse.dropWhile
    (pythonSpace unicodeSpace)).reverse
  let digits := match text with
    | '-' :: ds | '+' :: ds | ds => ds
  match pythonDigits unicodeDigit digits with
  | none => none
  | some ds =>
    if ds.length > 4300 then none
    else
      let n : Nat := ds.foldl (fun n d => 10 * n + d) 0
      some (if text.head? = some '-' then -(n : Int) else n)

end

/-! ### The checkers -/

def unsupportedKeys : List String := ["$id", "$dynamicRef", "$recursiveRef"]

/-- The target of a reference as the checkers resolve it. -/
def checkedTarget (index : List Char → Option Int) (root : Value) (ref : Value) :
    Except Error Value :=
  match ref with
  | .str text =>
    match text.toList with
    | '#' :: '/' :: pointer =>
      match follow index root pointer with
      | some target => .ok target
      | none => .error (err 422 "schema_reference_missing")
    | _ => .error (err 422 "schema_reference_unsupported")
  | _ => .error (err 422 "schema_reference_unsupported")

/-- `inspect`, with `17 - depth` levels left. -/
def inspect (index : List Char → Option Int) (root : Value) : Nat → Value → Except Error Unit
  | 0, _ => .error (err 422 "schema_too_deep")
  | n + 1, .obj fields => do
    refuse (unsupportedKeys.any fun k => (fields.lookup k).isSome)
      (err 422 "schema_reference_unsupported")
    match fields.lookup "$ref" with
    | none => pure ()
    | some ref => do
      let target ← checkedTarget index root ref
      inspect index root n target
    fields.forM fun f => inspect index root n f.2
  | n + 1, .arr items => items.forM fun v => inspect index root n v
  | _ + 1, _ => pure ()

def isStr (s : String) : Option Value → Bool
  | some (.str t) => t == s
  | _ => false

namespace Python

/-- `validate_schema`. -/
def validateSchema (unicodeSpace : Char → Bool) (unicodeDigit : Char → Option Nat)
    (canonicalBytes : Value → Option Nat) (metaschema : Value → Bool) (schema : Value) :
    Except Error Unit :=
  match schema with
  | .obj fields => do
    match canonicalBytes schema with
    | none => throw (err 422 "invalid_json")
    | some size => refuse (size > maxSchemaBytes) (err 422 "invalid_schema")
    refuse (¬ ((fields.lookup "$schema").isNone ∨ isStr dialect (fields.lookup "$schema")) ∨
      ¬ isStr "object" (fields.lookup "type"))
      (err 422 "unsupported_schema_dialect_or_root")
    inspect (pythonInt unicodeSpace unicodeDigit) schema 17 schema
    refuse (metaschema schema = false) (err 422 "invalid_schema")
  | _ => throw (err 422 "invalid_schema")

end Python

namespace Go

section
variable (pythonFloat : String → Option (List Char))

/-- `normalized`. -/
def normalized (v : Value) : Except String Value := do
  let bytes ← canonical pythonFloat false v
  decodeJSON bytes

/-- `ValidateSchema`. `patterns` compiles the regular expressions of the schema, and `compiles` the
schema itself. -/
def validateSchema (patterns : Value → Except Error Unit) (compiles : Value → Bool)
    (schema : Value) : Except Error Unit :=
  match schema with
  | .obj fields => do
    match canonical pythonFloat false schema with
    | .error _ => throw (err 422 "invalid_json")
    | .ok encoded => refuse (encoded.size > maxSchemaBytes) (err 422 "invalid_schema")
    refuse (¬ ((fields.lookup "$schema").isNone ∨ isStr dialect (fields.lookup "$schema")))
      (err 422 "unsupported_schema_dialect_or_root")
    refuse (¬ isStr "object" (fields.lookup "type")) (err 422 "unsupported_schema_dialect_or_root")
    match normalized pythonFloat schema with
    | .error _ => throw (err 422 "invalid_json")
    | .ok root => do
      inspect atoi root 17 root
      patterns root
      refuse (compiles root = false) (err 422 "invalid_schema")
  | _ => throw (err 422 "invalid_schema")

end

end Go

/-! ### The evaluator -/

section
variable {index : List Char → Option Int} {root : Value}

variable {n : Nat} {v : Value}

end

/-! ### Accepted schemas -/

section
variable (unicodeSpace : Char → Bool) (unicodeDigit : Char → Option Nat)
  (canonicalBytes : Value → Option Nat) (metaschema : Value → Bool)
  (pythonFloat : String → Option (List Char)) (patterns : Value → Except Error Unit)
  (compiles : Value → Bool)

/-- A schema that one of the services has accepted, as it evaluates it, and how that service reads
the index of an array. -/
def Accepted (index : List Char → Option Int) (root : Value) : Prop :=
  (index = pythonInt unicodeSpace unicodeDigit ∧
    Python.validateSchema unicodeSpace unicodeDigit canonicalBytes metaschema root = .ok ()) ∨
  (index = atoi ∧ ∃ schema, Go.validateSchema pythonFloat patterns compiles schema = .ok () ∧
    Go.normalized pythonFloat schema = .ok root)

variable {index : List Char → Option Int} {root : Value}
  (h : Accepted unicodeSpace unicodeDigit canonicalBytes metaschema pythonFloat patterns compiles
    index root)
include h

end

/-! ### A reference in percent signs -/

end Hf2l.Exchange.Schema
