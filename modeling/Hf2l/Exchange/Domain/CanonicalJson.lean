import Hf2l.Lib.Checked
import Hf2l.Lib.JsonText
import Hf2l.Lib.Utf8

/-!
# `Hf2l.Exchange.Domain.CanonicalJson`: the canonical JSON of the Go exchange

`internal/domain/json.go`. `CanonicalJSON` and `CanonicalASCIIJSON` write a value in one way
only; request hashes and principal identifiers are hashes of what they write. `DecodeJSON`
reads a value back and refuses half of a surrogate pair.

A Go value is a `Json.Value`: an integer is any of Go's integers or a `json.Number` without a
fraction and without an exponent, and `pythonFloat` stands for the spelling of the other
numbers. Items and fields are interfaces, so that the value inside one is two levels below
its container. Bytes are those of a string, whose characters are what the code calls runes.
The reader of `encoding/json` is `Json.value`, with its limit on nesting.
-/

set_option autoImplicit false

namespace Hf2l.Exchange.Domain

open Lib Lib.Json Lib.Checked

/-! ### Writing -/

/-- One rune of `appendString`. -/
def appendRune (ascii : Bool) (r : Char) : List Char :=
  if r = '"' then ['\\', '"']
  else if r = '\\' then ['\\', '\\']
  else if r = '\x08' then ['\\', 'b']
  else if r = '\x0c' then ['\\', 'f']
  else if r = '\n' then ['\\', 'n']
  else if r = '\r' then ['\\', 'r']
  else if r = '\t' then ['\\', 't']
  else if r.toNat < 32 then unicodeEscape r.toNat
  else if ascii = true ∧ r.toNat ≥ 127 then
    if r.toNat > 0xffff then unicodeEscape (highHalf r.toNat) ++ unicodeEscape (lowHalfOf r.toNat)
    else unicodeEscape r.toNat
  else [r]

/-- `appendString`. -/
def appendString (ascii : Bool) (s : String) : List Char := quoted (appendRune ascii) s

/-- The error of a value that is nested too deep. -/
def tooDeep : String := "JSON nesting exceeds limit"

/-- The check at the start of `appendCanonical`. -/
def limited {α : Type} (depth : Nat) (x : Except String α) : Except String α :=
  if depth > 128 then throw tooDeep else x

/-- The first error of a list of results, or all of them. -/
def sequence {α : Type} (xs : List (Except String α)) : Except String (List α) := xs.mapM id

/-- Fields in the order of the bytes of their keys. -/
def sortKeys {α : Type} (fields : List (String × α)) : List (String × α) :=
  fields.insertionSort fun f g => ¬ Utf8.bytes g.1 < Utf8.bytes f.1

def isNil : Value → Bool
  | .null => true
  | _ => false

section
variable (pythonFloat : String → Option (List Char)) (ascii : Bool)

mutual

/-- `appendCanonical` of a value that is not inside an interface. -/
def appendCanonical (depth : Nat) : Value → Except String (List Char)
  | .null => limited depth (pure ['n', 'u', 'l', 'l'])
  | .bool true => limited depth (pure ['t', 'r', 'u', 'e'])
  | .bool false => limited depth (pure ['f', 'a', 'l', 's', 'e'])
  | .int n => limited depth (pure (decimal n))
  | .real literal => limited depth
    (match pythonFloat literal with
      | none => throw "JSON number is not finite"
      | some t => pure t)
  | .str s => limited depth (pure (appendString ascii s))
  | .arr items => limited depth do
    let parts ← sequence (appendItems (depth + 1) items)
    return '[' :: joined parts ++ [']']
  | .obj fields => limited depth do
    let parts ← sequence ((sortKeys (appendFields (depth + 1) fields)).map fun (k, text) => do
      let t ← text
      return appendString ascii k ++ ':' :: t)
    return '{' :: joined parts ++ ['}']

/-- `appendCanonical` of the items of an array, which are interfaces. -/
def appendItems (depth : Nat) : List Value → List (Except String (List Char))
  | [] => []
  | v :: items =>
    limited depth (if isNil v then pure ['n', 'u', 'l', 'l'] else appendCanonical (depth + 1) v) ::
      appendItems depth items

/-- `appendCanonical` of the fields of an object, which are interfaces. -/
def appendFields (depth : Nat) : List (String × Value) → List (String × Except String (List Char))
  | [] => []
  | (k, v) :: fields =>
    (k, limited depth
      (if isNil v then pure ['n', 'u', 'l', 'l'] else appendCanonical (depth + 1) v)) ::
      appendFields depth fields

end

/-- The bytes of a text. -/
def toBytes (text : List Char) : ByteArray := (String.ofList text).toByteArray

/-- `canonical`: `CanonicalASCIIJSON` if `ascii`, and otherwise `CanonicalJSON`. -/
def canonical (v : Value) : Except String ByteArray :=
  (appendCanonical pythonFloat ascii 0 v).map toBytes

end

/-! ### Reading -/

/-- `validSurrogates`, in or outside of a string. -/
def validSurrogates : Bool → List Char → Except String Unit
  | _, [] => pure ()
  | inString, c :: rest =>
    if c = '"' then validSurrogates (!inString) rest
    else if inString = false ∨ c ≠ '\\' then validSurrogates inString rest
    else
      match rest with
      | [] => throw "incomplete JSON escape"
      | e :: rest =>
        if e ≠ 'u' then validSurrogates inString rest
        else
          match rest with
          | h₁ :: h₂ :: h₃ :: h₄ :: rest =>
            match hex4 [h₁, h₂, h₃, h₄] with
            | none => throw "invalid Unicode escape"
            | some (unit, _) =>
              if isHigh unit then
                match rest with
                | b :: u :: l₁ :: l₂ :: l₃ :: l₄ :: rest =>
                  if b = '\\' ∧ u = 'u' ∧ (hex4 [l₁, l₂, l₃, l₄]).any (fun low => isLow low.1) then
                    validSurrogates inString rest
                  else throw "unpaired high surrogate"
                | _ => throw "unpaired high surrogate"
              else if isLow unit then throw "unpaired low surrogate"
              else validSurrogates inString rest
          | _ => throw "incomplete Unicode escape"

/-- `maxNestingDepth` of `encoding/json`. -/
def maxNestingDepth : Nat := 10000

/-- `DecodeJSON`. -/
def decodeJSON (raw : ByteArray) : Except String Value :=
  match String.fromUTF8? raw with
  | none => throw "JSON is not valid UTF-8"
  | some s => do
    validSurrogates false s.toList
    match value maxNestingDepth (skipSpace s.toList) with
    | none => throw "invalid JSON"
    | some (v, rest) => if skipSpace rest = [] then pure v else throw "expected one JSON value"

/-! ### The reference -/

/-- `ESCAPE_DCT` of Python's `json.encoder`. -/
def escapeDct (c : Char) : Option (List Char) :=
  if c = '\\' then some ['\\', '\\']
  else if c = '"' then some ['\\', '"']
  else if c = '\x08' then some ['\\', 'b']
  else if c = '\x0c' then some ['\\', 'f']
  else if c = '\n' then some ['\\', 'n']
  else if c = '\r' then some ['\\', 'r']
  else if c = '\t' then some ['\\', 't']
  else if c.toNat < 0x20 then some (unicodeEscape c.toNat)
  else none

/-- One character of `py_encode_basestring_ascii`. -/
def pythonEscape (c : Char) : List Char :=
  if c = '\\' ∨ c = '"' ∨ ¬ (' ' ≤ c ∧ c ≤ '~') then
    match escapeDct c with
    | some t => t
    | none =>
      if c.toNat < 0x10000 then unicodeEscape c.toNat
      else
        unicodeEscape (0xd800 ||| ((c.toNat - 0x10000) >>> 10 &&& 0x3ff)) ++
          unicodeEscape (0xdc00 ||| (c.toNat - 0x10000 &&& 0x3ff))
  else [c]

/-- `sys.int_info.default_max_str_digits`: no longer integer is turned into a string. -/
def maxStrDigits : Nat := 4300

/-- The text of the `ValueError` for a longer one. -/
def tooManyDigits : String := "Exceeds the limit (4300 digits) for integer string conversion"

section
variable (floatRepr : String → List Char)

mutual

/-- Python's `json.dumps(v, sort_keys=True, separators=(',', ':'))`. Strings compare by code
point. The limit on recursion is left out: it is far above the levels that the encoder allows. -/
def pythonDumps : Value → Except String (List Char)
  | .null => pure ['n', 'u', 'l', 'l']
  | .bool true => pure ['t', 'r', 'u', 'e']
  | .bool false => pure ['f', 'a', 'l', 's', 'e']
  | .int n =>
    if (Nat.digits 10 n.natAbs).length > maxStrDigits then throw tooManyDigits else pure (decimal n)
  | .real literal => pure (floatRepr literal)
  | .str s => pure (quoted pythonEscape s)
  | .arr items => do
    let parts ← pythonItems items
    return '[' :: joined parts ++ [']']
  | .obj fields => do
    let parts ← pythonFields fields
    return '{' :: joined ((Value.sortFields parts).map fun (k, t) =>
      quoted pythonEscape k ++ ':' :: t) ++ ['}']

def pythonItems : List Value → Except String (List (List Char))
  | [] => pure []
  | v :: items => do
    let t ← pythonDumps v
    return t :: (← pythonItems items)

def pythonFields : List (String × Value) → Except String (List (String × List Char))
  | [] => pure []
  | (k, v) :: fields => do
    let t ← pythonDumps v
    return (k, t) :: (← pythonFields fields)

end

end

end Hf2l.Exchange.Domain
