import Hf2l.Lib.JsonValue
import Mathlib.Data.Nat.Digits.Lemmas

/-!
# `Hf2l.Lib.JsonText`: reading JSON

A reader takes the characters in front of it and returns a value and what is left. `value` is
the reader of a JSON text: white space between tokens is skipped, a number keeps its spelling
unless it is an integer, a later field with the same key replaces an earlier one, half of a
surrogate pair becomes the replacement character, and containers are nested no deeper than a
limit.

`Reads p t x` says that `p` reads `x` from the text `t` wherever a token may end, and the rules
below build it up: `Spelling` for one character of a string, `reads_int`, `reads_str`,
`reads_arr` and `reads_obj` for values. A writer is correct when its text is so built.
-/

set_option autoImplicit false

namespace Hf2l.Lib.Json

abbrev Reader (α : Type) := List Char → Option (α × List Char)

def isSpace (c : Char) : Bool := c == ' ' || c == '\t' || c == '\n' || c == '\r'

def skipSpace (cs : List Char) : List Char := cs.dropWhile isSpace

/-! ### Strings -/

def hexValue (c : Char) : Option Nat :=
  if '0' ≤ c ∧ c ≤ '9' then some (c.toNat - 48)
  else if 'a' ≤ c ∧ c ≤ 'f' then some (c.toNat - 87)
  else if 'A' ≤ c ∧ c ≤ 'F' then some (c.toNat - 55)
  else none

/-- Four hexadecimal digits. -/
def hex4 : Reader Nat
  | a :: b :: c :: d :: rest => do
    let a ← hexValue a
    let b ← hexValue b
    let c ← hexValue c
    let d ← hexValue d
    return (4096 * a + 256 * b + 16 * c + d, rest)
  | _ => none

def isHigh (u : Nat) : Bool := 0xd800 ≤ u && u ≤ 0xdbff

def isLow (u : Nat) : Bool := 0xdc00 ≤ u && u ≤ 0xdfff

/-- The code point of a surrogate pair. -/
def combine (high low : Nat) : Char :=
  Char.ofNat (0x400 * (high - 0xd800) + (low - 0xdc00) + 0x10000)

def replacement : Char := Char.ofNat 0xfffd

/-- The second half of a surrogate pair, escaped. -/
def lowHalf : Reader Nat
  | '\\' :: 'u' :: rest => do
    let (low, rest) ← hex4 rest
    if isLow low then some (low, rest) else none
  | _ => none

/-- The code unit of an escape has been read. -/
def fromUnit (unit : Nat) (rest : List Char) : Char × List Char :=
  if isHigh unit then
    match lowHalf rest with
    | some (low, rest) => (combine unit low, rest)
    | none => (replacement, rest)
  else if isLow unit then (replacement, rest)
  else (Char.ofNat unit, rest)

/-- What stands after a backslash. -/
def escape : Reader Char
  | [] => none
  | e :: rest =>
    if e = '"' then some ('"', rest)
    else if e = '\\' then some ('\\', rest)
    else if e = '/' then some ('/', rest)
    else if e = 'b' then some ('\x08', rest)
    else if e = 'f' then some ('\x0c', rest)
    else if e = 'n' then some ('\n', rest)
    else if e = 'r' then some ('\r', rest)
    else if e = 't' then some ('\t', rest)
    else if e = 'u' then (hex4 rest).map fun (unit, rest) => fromUnit unit rest
    else none

/-- The rest of a string whose opening quote has been read. -/
def stringBody : Nat → Reader (List Char)
  | 0, _ => none
  | _ + 1, [] => none
  | n + 1, c :: rest =>
    if c = '"' then some ([], rest)
    else if c = '\\' then do
      let (c, rest) ← escape rest
      let (cs, rest) ← stringBody n rest
      return (c :: cs, rest)
    else if c.toNat < 32 then none
    else do
      let (cs, rest) ← stringBody n rest
      return (c :: cs, rest)

def string : Reader String :=
  fun cs => (stringBody (cs.length + 1) cs).map fun (s, rest) => (String.ofList s, rest)

/-! ### Numbers -/

def digitsValue (digits : List Char) : Nat := digits.foldl (fun n c => 10 * n + (c.toNat - 48)) 0

def intPart : Reader (List Char)
  | [] => none
  | c :: rest =>
    if c = '0' then some (['0'], rest)
    else if c.isDigit then some (c :: rest.takeWhile Char.isDigit, rest.dropWhile Char.isDigit)
    else none

/-- Some digits, at least one. -/
def someDigits (cs : List Char) : Option (List Char × List Char) :=
  if cs.takeWhile Char.isDigit = [] then none
  else some (cs.takeWhile Char.isDigit, cs.dropWhile Char.isDigit)

def fraction : Reader (List Char)
  | [] => some ([], [])
  | c :: rest =>
    if c = '.' then (someDigits rest).map fun (d, rest) => ('.' :: d, rest)
    else some ([], c :: rest)

def sign : List Char → List Char × List Char
  | [] => ([], [])
  | c :: rest => if c = '+' ∨ c = '-' then ([c], rest) else ([], c :: rest)

def exponent : Reader (List Char)
  | [] => some ([], [])
  | c :: rest =>
    if c = 'e' ∨ c = 'E' then
      (someDigits (sign rest).2).map fun (d, after) => (c :: (sign rest).1 ++ d, after)
    else some ([], c :: rest)

/-- The number after its sign. -/
def unsigned (negative : Bool) (cs : List Char) : Option (Value × List Char) := do
  let (whole, rest) ← intPart cs
  let (part, rest) ← fraction rest
  let (scale, rest) ← exponent rest
  if part = [] ∧ scale = [] then
    return (.int (if negative then -(digitsValue whole : Int) else digitsValue whole), rest)
  else
    return (.real (String.ofList ((if negative then ['-'] else []) ++ whole ++ part ++ scale)),
      rest)

def number : Reader Value
  | [] => none
  | c :: rest => if c = '-' then unsigned true rest else unsigned false (c :: rest)

/-! ### Values -/

/-- The rest of a fixed word. -/
def word (w : List Char) (v : Value) (cs : List Char) : Option (Value × List Char) :=
  if w.isPrefixOf cs then some (v, cs.drop w.length) else none

def scalar : Reader Value
  | [] => none
  | c :: rest =>
    if c = '"' then (string rest).map fun (s, rest) => (.str s, rest)
    else if c = 'n' then word ['u', 'l', 'l'] .null rest
    else if c = 't' then word ['r', 'u', 'e'] (.bool true) rest
    else if c = 'f' then word ['a', 'l', 's', 'e'] (.bool false) rest
    else number (c :: rest)

section
variable {α : Type}

/-- Parts that are separated by commas, up to the closing bracket. -/
def separated (p : Reader α) (close : Char) : Nat → Reader (List α)
  | 0, _ => none
  | n + 1, cs => do
    let (x, rest) ← p (skipSpace cs)
    match skipSpace rest with
    | [] => none
    | c :: rest =>
      if c = ',' then do
        let (xs, rest) ← separated p close n rest
        return (x :: xs, rest)
      else if c = close then return ([x], rest)
      else none

/-- The parts of a container whose opening bracket has been read. -/
def parts (p : Reader α) (close : Char) (cs : List Char) : Option (List α × List Char) :=
  match skipSpace cs with
  | [] => none
  | c :: rest => if c = close then some ([], rest) else separated p close cs.length cs

/-- A key, a colon and a value. -/
def member (p : Reader α) : Reader (String × α)
  | [] => none
  | c :: rest =>
    if c = '"' then do
      let (k, rest) ← string rest
      match skipSpace rest with
      | [] => none
      | c :: rest =>
        if c = ':' then do
          let (x, rest) ← p (skipSpace rest)
          return ((k, x), rest)
        else none
    else none

/-- A later field replaces an earlier one with the same key. -/
def assign (fields : List (String × α)) (f : String × α) : List (String × α) :=
  if f.1 ∈ fields.map (·.1) then fields.map fun g => if g.1 = f.1 then f else g else fields ++ [f]

end

/-- A value, with at most so many levels of containers. -/
def value : Nat → Reader Value
  | _, [] => none
  | 0, c :: rest => if c = '[' ∨ c = '{' then none else scalar (c :: rest)
  | n + 1, c :: rest =>
    if c = '[' then (parts (value n) ']' rest).map fun (items, rest) => (.arr items, rest)
    else if c = '{' then
      (parts (member (value n)) '}' rest).map fun (fields, rest) =>
        (.obj (fields.foldl assign []), rest)
    else scalar (c :: rest)

/-! ### Writing -/

/-- A hexadecimal digit, in lower case. -/
def hexDigit (d : Nat) : Char := if d < 10 then Char.ofNat (48 + d) else Char.ofNat (87 + d)

/-- Four hexadecimal digits. -/
def hexDigits (n : Nat) : List Char :=
  [hexDigit (n / 4096 % 16), hexDigit (n / 256 % 16), hexDigit (n / 16 % 16), hexDigit (n % 16)]

/-- A code unit, escaped. -/
def unicodeEscape (unit : Nat) : List Char := '\\' :: 'u' :: hexDigits unit

/-- The surrogate pair of a code point. -/
def highHalf (n : Nat) : Nat := 0xd800 + (n - 0x10000) / 0x400

def lowHalfOf (n : Nat) : Nat := 0xdc00 + (n - 0x10000) % 0x400

def digitChar (d : Nat) : Char := Char.ofNat (48 + d)

/-- The decimal spelling of a number. -/
def decimalNat (n : Nat) : List Char :=
  if n = 0 then ['0'] else (Nat.digits 10 n).reverse.map digitChar

def decimal (n : Int) : List Char :=
  if n < 0 then '-' :: decimalNat n.natAbs else decimalNat n.natAbs

/-- Texts with commas between them. -/
def joined : List (List Char) → List Char
  | [] => []
  | [t] => t
  | t :: ts => t ++ ',' :: joined ts

/-! ### Escapes -/

theorem hexValue_hexDigit (d : Nat) (h : d < 16) : hexValue (hexDigit d) = some d := by
  revert d
  decide

theorem hexDigit_inj {d e : Nat} (hd : d < 16) (he : e < 16) (h : hexDigit d = hexDigit e) :
    d = e := by
  have hvalue := hexValue_hexDigit d hd
  rw [h, hexValue_hexDigit e he] at hvalue
  exact (Option.some.inj hvalue).symm

variable {n : Nat} {c : Char} {spell : Char → List Char} {rest : List Char}

theorem hex4_hexDigits (h : n < 65536) (rest : List Char) :
    hex4 (hexDigits n ++ rest) = some (n, rest) := by
  simp only [hexDigits, List.cons_append, List.nil_append, hex4,
    hexValue_hexDigit _ (Nat.mod_lt _ (by decide : 16 > 0))]
  show some (_, rest) = _
  congr 2
  omega

/-- The ways to write a character inside a string. -/
inductive Spelling : Char → List Char → Prop where
  | plain {c : Char} : c ≠ '"' → c ≠ '\\' → 32 ≤ c.toNat → Spelling c [c]
  | short {c e : Char} : e ≠ 'u' → (∀ rest, escape (e :: rest) = some (c, rest)) →
    Spelling c ['\\', e]
  | unit {c : Char} : c.toNat ≤ 0xffff → Spelling c (unicodeEscape c.toNat)
  | pair {c : Char} : 0xffff < c.toNat →
    Spelling c (unicodeEscape (highHalf c.toNat) ++ unicodeEscape (lowHalfOf c.toNat))

theorem isHigh_iff (u : Nat) : isHigh u = true ↔ 0xd800 ≤ u ∧ u ≤ 0xdbff := by
  simp [isHigh]

theorem isLow_iff (u : Nat) : isLow u = true ↔ 0xdc00 ≤ u ∧ u ≤ 0xdfff := by
  simp [isLow]

/-- A code point is not a surrogate. -/
theorem not_surrogate (c : Char) : ¬ isHigh c.toNat = true ∧ ¬ isLow c.toNat = true := by
  have h := c.valid
  have hval : c.toNat = c.val.toNat := rfl
  rw [isHigh_iff, isLow_iff]
  rcases h with h | h <;> omega

theorem toNat_lt (c : Char) : c.toNat < 0x110000 := by
  have hval : c.toNat = c.val.toNat := rfl
  rcases c.valid with h | h <;> omega

/-- The halves of a code point outside the basic plane, and the code point they make. -/
theorem combine_halves (h : 0xffff < c.toNat) :
    isHigh (highHalf c.toNat) = true ∧ isLow (lowHalfOf c.toNat) = true ∧
      combine (highHalf c.toNat) (lowHalfOf c.toNat) = c := by
  have hmax := toNat_lt c
  refine ⟨?_, ?_, ?_⟩
  · rw [isHigh_iff]
    unfold highHalf
    omega
  · rw [isLow_iff]
    unfold lowHalfOf
    omega
  · unfold combine highHalf lowHalfOf
    rw [show 0x400 * (0xd800 + (c.toNat - 0x10000) / 0x400 - 0xd800) +
      (0xdc00 + (c.toNat - 0x10000) % 0x400 - 0xdc00) + 0x10000 = c.toNat by omega]
    exact Char.ofNat_toNat c

theorem escape_unicode (rest : List Char) :
    escape ('u' :: rest) = (hex4 rest).map fun (unit, rest) => fromUnit unit rest := by
  simp [escape]

theorem lowHalf_unicode {low : Nat} (h : isLow low = true) (rest : List Char) :
    lowHalf (unicodeEscape low ++ rest) = some (low, rest) := by
  have hlt := (isLow_iff low).mp h
  unfold unicodeEscape
  rw [List.cons_append, List.cons_append, lowHalf, hex4_hexDigits (by omega)]
  simp [h]

theorem escape_unit (h : c.toNat ≤ 0xffff) (rest : List Char) :
    escape ('u' :: hexDigits c.toNat ++ rest) = some (c, rest) := by
  obtain ⟨hhigh, hlow⟩ := not_surrogate c
  rw [List.cons_append, escape_unicode, hex4_hexDigits (by omega)]
  simp [fromUnit, hhigh, hlow, Char.ofNat_toNat]

theorem escape_pair {high low : Nat} (hhigh : isHigh high = true) (hlow : isLow low = true)
    (rest : List Char) :
    escape ('u' :: (hexDigits high ++ unicodeEscape low) ++ rest) =
      some (combine high low, rest) := by
  have hbound := (isHigh_iff high).mp hhigh
  rw [List.cons_append, escape_unicode, List.append_assoc, hex4_hexDigits (by omega)]
  simp [fromUnit, hhigh, lowHalf_unicode hlow]

/-- The text after the backslash of an escaped character. -/
theorem Spelling.escape {t : List Char} (h : Spelling c t) (rest : List Char) :
    (t = [c] ∧ c ≠ '"' ∧ c ≠ '\\' ∧ 32 ≤ c.toNat) ∨
      ∃ tail, t = '\\' :: tail ∧ Json.escape (tail ++ rest) = some (c, rest) := by
  cases h with
  | plain hquote hslash hcontrol => exact Or.inl ⟨rfl, hquote, hslash, hcontrol⟩
  | short _ he => exact Or.inr ⟨_, rfl, he rest⟩
  | unit hle => exact Or.inr ⟨'u' :: hexDigits c.toNat, rfl, escape_unit hle rest⟩
  | pair hlt =>
    obtain ⟨hhigh, hlow, hpair⟩ := combine_halves hlt
    refine Or.inr ⟨'u' :: (hexDigits (highHalf c.toNat) ++ unicodeEscape (lowHalfOf c.toNat)), ?_,
      ?_⟩
    · generalize highHalf c.toNat = high
      generalize lowHalfOf c.toNat = low
      rfl
    · rw [escape_pair hhigh hlow, hpair]

section
variable (h : ∀ c, Spelling c (spell c))
include h

/-- **A string is read back,** however its characters are spelled. -/
theorem stringBody_spelled (cs : List Char) (hn : cs.length < n) (rest : List Char) :
    stringBody n (cs.flatMap spell ++ '"' :: rest) = some (cs, rest) := by
  induction cs generalizing n with
  | nil =>
    cases n with
    | zero => omega
    | succ n => simp [stringBody]
  | cons c cs ih =>
    cases n with
    | zero => omega
    | succ n =>
      have hrest := ih (n := n) (by simpa using hn)
      rw [List.flatMap_cons, List.append_assoc]
      rcases (h c).escape (cs.flatMap spell ++ '"' :: rest) with ⟨ht, hquote, hslash, hcontrol⟩
        | ⟨tail, ht, he⟩
      · rw [ht, List.singleton_append, stringBody, if_neg hquote, if_neg hslash,
          if_neg (by omega), hrest]
        rfl
      · rw [ht, List.cons_append, stringBody, if_neg (by decide), if_pos rfl, he]
        show (stringBody n _).bind _ = _
        rw [hrest]
        rfl

theorem length_le_flatMap (cs : List Char) : cs.length ≤ (cs.flatMap spell).length := by
  induction cs with
  | nil => simp
  | cons c cs ih =>
    have hpos : 1 ≤ (spell c).length := by
      have hc := h c
      generalize spell c = t at hc
      cases hc <;> simp [unicodeEscape]
    simp only [List.length_cons, List.flatMap_cons, List.length_append]
    omega

theorem string_spelled (s : String) (rest : List Char) :
    string (s.toList.flatMap spell ++ '"' :: rest) = some (s, rest) := by
  have hle := length_le_flatMap h s.toList
  unfold string
  rw [stringBody_spelled h s.toList (by simp only [List.length_append, List.length_cons]; omega)]
  simp

end

/-! ### Where a token ends -/

/-- A character that a number may go on with. -/
def continues (c : Char) : Bool := c.isDigit || c == '.' || c == 'e' || c == 'E'

/-- No number goes on in what follows. -/
def Ends (rest : List Char) : Prop := ∀ c, rest.head? = some c → continues c = false

theorem ends_nil : Ends [] := by
  intro c h
  cases h

theorem ends_cons (h : continues c = false) : Ends (c :: rest) := by
  intro d hd
  cases hd
  exact h

/-- `p` reads `x` from the text `t`, wherever a token may end. The text starts with a character
that is no white space and no closing bracket. -/
structure Reads {α : Type} (p : Reader α) (t : List Char) (x : α) : Prop where
  starts : ∃ c u, t = c :: u ∧ isSpace c = false ∧ c ≠ ']' ∧ c ≠ '}'
  reads : ∀ rest, Ends rest → p (t ++ rest) = some (x, rest)

theorem skipSpace_cons (h : isSpace c = false) (rest : List Char) :
    skipSpace (c :: rest) = c :: rest := by
  simp [skipSpace, h]

theorem Reads.skip {α : Type} {p : Reader α} {t : List Char} {x : α} (h : Reads p t x)
    (rest : List Char) :
    skipSpace (t ++ rest) = t ++ rest := by
  obtain ⟨c, u, rfl, hc, -⟩ := h.starts
  exact skipSpace_cons hc (u ++ rest)

/-! ### Decimal numbers -/

theorem digitChar_isDigit (d : Nat) (h : d < 10) : (digitChar d).isDigit = true := by
  revert d
  decide

theorem digitChar_value (d : Nat) (h : d < 10) : (digitChar d).toNat - 48 = d := by
  revert d
  decide

theorem digitChar_ne_zero (d : Nat) (h : d < 10) (hd : d ≠ 0) : digitChar d ≠ '0' := by
  revert d
  decide

theorem digitsValue_decimalNat (n : Nat) : digitsValue (decimalNat n) = n := by
  unfold decimalNat
  by_cases hn : n = 0
  · subst hn
    rfl
  · rw [if_neg hn]
    have hvalue : ∀ ds : List Nat, (∀ d ∈ ds, d < 10) →
        digitsValue (ds.reverse.map digitChar) = Nat.ofDigits 10 ds := by
      intro ds hds
      induction ds with
      | nil => rfl
      | cons d ds ih =>
        have ih' := ih fun x hx => hds x (List.mem_cons_of_mem d hx)
        unfold digitsValue at ih' ⊢
        rw [List.reverse_cons, List.map_append, List.foldl_append, ih', Nat.ofDigits_cons]
        show 10 * _ + ((digitChar d).toNat - 48) = _
        rw [digitChar_value d (hds d List.mem_cons_self)]
        exact Nat.add_comm _ _
    rw [hvalue _ fun d hd => Nat.digits_lt_base (by decide) hd, Nat.ofDigits_digits]

/-- Digits are read up to where they stop. -/
theorem digits_stop {ds : List Char} (h : ∀ c ∈ ds, c.isDigit = true)
    (hr : rest.takeWhile Char.isDigit = []) :
    (ds ++ rest).takeWhile Char.isDigit = ds ∧ (ds ++ rest).dropWhile Char.isDigit = rest := by
  have hdrop := List.takeWhile_append_dropWhile (p := Char.isDigit) (l := rest)
  rw [hr, List.nil_append] at hdrop
  rw [List.takeWhile_append_of_pos h, List.dropWhile_append_of_pos h, hr, hdrop, List.append_nil]
  exact ⟨rfl, rfl⟩

theorem Ends.stop (hr : Ends rest) : rest.takeWhile Char.isDigit = [] := by
  cases rest with
  | nil => rfl
  | cons c rest =>
    have hc := hr c rfl
    simp only [continues, Bool.or_eq_false_iff] at hc
    simp [hc.1.1.1]

/-- A number starts with zero only if it is zero. -/
theorem decimalNat_cons (n : Nat) :
    ∃ c ds, decimalNat n = c :: ds ∧ (c = '0' → ds = []) ∧ ∀ x ∈ c :: ds, x.isDigit = true := by
  by_cases hn : n = 0
  · exact ⟨'0', [], by rw [hn]; rfl, fun _ => rfl, List.forall_mem_singleton.mpr rfl⟩
  have hlt : ∀ d ∈ Nat.digits 10 n, d < 10 := fun d hd => Nat.digits_lt_base (by decide) hd
  have hne : Nat.digits 10 n ≠ [] := Nat.digits_ne_nil_iff_ne_zero.mpr hn
  have hdigits : ∀ x ∈ decimalNat n, x.isDigit = true := by
    unfold decimalNat
    rw [if_neg hn]
    intro x hx
    obtain ⟨d, hd, rfl⟩ := List.mem_map.mp hx
    exact digitChar_isDigit d (hlt d (List.mem_reverse.mp hd))
  have hsplit : decimalNat n =
      digitChar ((Nat.digits 10 n).getLast hne) ::
        (Nat.digits 10 n).dropLast.reverse.map digitChar := by
    unfold decimalNat
    rw [if_neg hn]
    conv_lhs => rw [← List.dropLast_append_getLast hne]
    simp
  have hlead := digitChar_ne_zero _ (hlt _ (List.getLast_mem hne)) (Nat.getLast_digit_ne_zero 10 hn)
  refine ⟨_, _, hsplit, fun h => absurd h hlead, ?_⟩
  rw [← hsplit]
  exact hdigits

theorem intPart_digits {ds : List Char} (h : ∀ x ∈ c :: ds, x.isDigit = true)
    (hzero : c = '0' → ds = []) (hr : rest.takeWhile Char.isDigit = []) :
    intPart (c :: ds ++ rest) = some (c :: ds, rest) := by
  rw [List.cons_append, intPart, if_pos (h c List.mem_cons_self)]
  split
  · next hc => rw [hzero hc, hc, List.nil_append]
  · obtain ⟨htake, hdrop⟩ := digits_stop (fun x hx => h x (List.mem_cons_of_mem c hx)) hr
    rw [htake, hdrop]

theorem intPart_decimalNat (n : Nat) (hr : Ends rest) :
    intPart (decimalNat n ++ rest) = some (decimalNat n, rest) := by
  obtain ⟨c, ds, he, hzero, hdigits⟩ := decimalNat_cons n
  rw [he]
  exact intPart_digits hdigits hzero hr.stop

theorem fraction_ends (hr : Ends rest) : fraction rest = some ([], rest) := by
  cases rest with
  | nil => rfl
  | cons c rest =>
    have hc := hr c rfl
    simp only [continues, Bool.or_eq_false_iff, beq_eq_false_iff_ne] at hc
    rw [fraction, if_neg hc.1.1.2]

theorem exponent_ends (hr : Ends rest) : exponent rest = some ([], rest) := by
  cases rest with
  | nil => rfl
  | cons c rest =>
    have hc := hr c rfl
    simp only [continues, Bool.or_eq_false_iff, beq_eq_false_iff_ne] at hc
    rw [exponent, if_neg (by simp [hc.1.2, hc.2])]

theorem unsigned_decimalNat (negative : Bool) (n : Nat) (hr : Ends rest) :
    unsigned negative (decimalNat n ++ rest) =
      some (.int (if negative then -(n : Int) else n), rest) := by
  simp [unsigned, intPart_decimalNat n hr, fraction_ends hr, exponent_ends hr,
    digitsValue_decimalNat]

theorem number_decimal (n : Int) (hr : Ends rest) :
    number (decimal n ++ rest) = some (.int n, rest) := by
  unfold decimal
  by_cases hneg : n < 0
  · rw [if_pos hneg, List.cons_append, number, if_pos rfl, unsigned_decimalNat true _ hr]
    rw [if_pos rfl, show -(n.natAbs : Int) = n by omega]
  · rw [if_neg hneg]
    obtain ⟨c, ds, he, -, hc⟩ := decimalNat_cons n.natAbs
    have hminus : c ≠ '-' := by
      rintro rfl
      exact absurd (hc _ List.mem_cons_self) (by decide)
    have hread := unsigned_decimalNat false n.natAbs hr
    rw [he, List.cons_append] at hread ⊢
    rw [number, if_neg hminus, hread, if_neg (by decide), show (n.natAbs : Int) = n by omega]

/-! ### Containers -/

section
variable {α : Type} {p : Reader α} {close : Char}

/-- A bracket that closes a container. -/
def Closes (close : Char) : Prop := close = ']' ∨ close = '}'

theorem Closes.facts (h : Closes close) :
    isSpace close = false ∧ close ≠ ',' ∧ continues close = false := by
  rcases h with rfl | rfl <;> decide

variable {ts : List (List Char)} {xs : List α}

theorem separated_joined (hclose : Closes close) (h : List.Forall₂ (Reads p) ts xs) (hne : ts ≠ [])
    {n : Nat} (hn : ts.length ≤ n) (rest : List Char) :
    separated p close n (joined ts ++ close :: rest) = some (xs, rest) := by
  obtain ⟨hspace, hcomma, hends⟩ := hclose.facts
  induction h generalizing n with
  | nil => exact absurd rfl hne
  | @cons t x ts xs ht hts ih =>
    cases n with
    | zero => simp at hn
    | succ n =>
      cases hts with
      | nil =>
        rw [joined, separated, ht.skip, ht.reads _ (ends_cons hends)]
        simp [skipSpace_cons hspace, hcomma]
      | @cons t' x' ts' xs' ht' hts' =>
        have hrest := ih (List.cons_ne_nil _ _) (n := n) (by simpa using hn)
        rw [joined, List.append_assoc, List.cons_append, separated, ht.skip,
          ht.reads _ (ends_cons (by decide))]
        simp [skipSpace_cons (c := ',') (by decide), hrest]
        exact List.cons_ne_nil _ _

theorem joined_starts (h : List.Forall₂ (Reads p) ts xs) (hne : ts ≠ []) :
    ∃ c u, joined ts = c :: u ∧ isSpace c = false ∧ c ≠ ']' ∧ c ≠ '}' := by
  cases h with
  | nil => exact absurd rfl hne
  | @cons t x ts xs ht hts =>
    obtain ⟨c, u, rfl, hc⟩ := ht.starts
    cases hts with
    | nil => exact ⟨c, u, rfl, hc⟩
    | cons _ _ => exact ⟨c, _, rfl, hc⟩

theorem length_le_joined (h : List.Forall₂ (Reads p) ts xs) : ts.length ≤ (joined ts).length := by
  induction h with
  | nil => simp
  | @cons t x ts xs ht hts ih =>
    obtain ⟨c, u, rfl, -⟩ := ht.starts
    cases hts with
    | nil => simp [joined]
    | cons _ _ =>
      rw [joined]
      · simp only [List.length_cons, List.length_append] at ih ⊢
        omega
      · exact List.cons_ne_nil _ _

/-- **The parts of a container are read back.** -/
theorem parts_joined (hclose : Closes close) (h : List.Forall₂ (Reads p) ts xs) (rest : List Char) :
    parts p close (joined ts ++ close :: rest) = some (xs, rest) := by
  by_cases hne : ts = []
  · subst hne
    cases h
    simp [parts, joined, skipSpace_cons hclose.facts.1]
  · have hlength := length_le_joined h
    have hread := separated_joined hclose h hne (n := (joined ts ++ close :: rest).length)
      (by rw [List.length_append]; omega) rest
    obtain ⟨c, u, he, hspace, hbracket, hbrace⟩ := joined_starts h hne
    rw [he, List.cons_append] at hread ⊢
    have hopen : c ≠ close := by
      rcases hclose with rfl | rfl
      · exact hbracket
      · exact hbrace
    rw [parts, skipSpace_cons hspace]
    simp only [if_neg hopen]
    exact hread

end

section
variable {α : Type}

/-- A string between quotes. -/
def quoted (spell : Char → List Char) (s : String) : List Char :=
  '"' :: s.toList.flatMap spell ++ ['"']

theorem quoted_append (spell : Char → List Char) (s : String) (rest : List Char) :
    quoted spell s ++ rest = '"' :: (s.toList.flatMap spell ++ '"' :: rest) := by
  simp [quoted]

theorem reads_member {p : Reader α} {spell : Char → List Char} (h : ∀ c, Spelling c (spell c))
    (k : String) {t : List Char} {x : α} (ht : Reads p t x) :
    Reads (member p) (quoted spell k ++ ':' :: t) (k, x) := by
  refine ⟨⟨'"', _, quoted_append spell k _, by decide, by decide, by decide⟩, fun rest hrest => ?_⟩
  rw [List.append_assoc, quoted_append, member, if_pos rfl, List.cons_append, string_spelled h]
  simp [skipSpace_cons (c := ':') (by decide), ht.skip, ht.reads rest hrest]

theorem foldl_assign (fields acc : List (String × α)) (h : ((acc ++ fields).map (·.1)).Nodup) :
    fields.foldl assign acc = acc ++ fields := by
  induction fields generalizing acc with
  | nil => simp
  | cons f fields ih =>
    have hnew : f.1 ∉ acc.map (·.1) := by
      intro hmem
      rw [List.map_append, List.nodup_append] at h
      exact h.2.2 _ hmem f.1 List.mem_cons_self rfl
    rw [List.foldl_cons, assign, if_neg hnew, ih]
    · simp
    · simpa using h

end

/-! ### Values -/

theorem value_scalar {c : Char} (harr : c ≠ '[') (hobj : c ≠ '{') (n : Nat) (rest : List Char) :
    value n (c :: rest) = scalar (c :: rest) := by
  cases n with
  | zero => rw [value, if_neg (by simp [harr, hobj])]
  | succ n => rw [value, if_neg harr, if_neg hobj]

theorem reads_null (n : Nat) : Reads (value n) ['n', 'u', 'l', 'l'] .null := by
  refine ⟨⟨'n', _, rfl, by decide, by decide, by decide⟩, fun rest _ => ?_⟩
  rw [List.cons_append, value_scalar (by decide) (by decide)]
  simp [scalar, word]

theorem reads_true (n : Nat) : Reads (value n) ['t', 'r', 'u', 'e'] (.bool true) := by
  refine ⟨⟨'t', _, rfl, by decide, by decide, by decide⟩, fun rest _ => ?_⟩
  rw [List.cons_append, value_scalar (by decide) (by decide)]
  simp [scalar, word]

theorem reads_false (n : Nat) : Reads (value n) ['f', 'a', 'l', 's', 'e'] (.bool false) := by
  refine ⟨⟨'f', _, rfl, by decide, by decide, by decide⟩, fun rest _ => ?_⟩
  rw [List.cons_append, value_scalar (by decide) (by decide)]
  simp [scalar, word]

theorem reads_str (h : ∀ c, Spelling c (spell c)) (n : Nat) (s : String) :
    Reads (value n) (quoted spell s) (.str s) := by
  refine ⟨⟨'"', _, rfl, by decide, by decide, by decide⟩, fun rest _ => ?_⟩
  rw [quoted_append, value_scalar (by decide) (by decide), scalar, if_pos rfl, string_spelled h]
  rfl

/-- The first character of a number is none of those that start another value. -/
theorem decimal_head (k : Int) : ∃ c u, decimal k = c :: u ∧ (c = '-' ∨ c.isDigit = true) := by
  unfold decimal
  split
  · exact ⟨'-', _, rfl, Or.inl rfl⟩
  · obtain ⟨c, u, he, -, hc⟩ := decimalNat_cons k.natAbs
    exact ⟨c, u, he, Or.inr (hc c List.mem_cons_self)⟩

theorem ne_of_numeric {d : Char} (h : c = '-' ∨ c.isDigit = true) (hd : d ≠ '-')
    (hd' : d.isDigit = false) : c ≠ d := by
  rintro rfl
  rcases h with h | h
  · exact hd h
  · rw [hd'] at h
    cases h

theorem reads_int (n : Nat) (k : Int) : Reads (value n) (decimal k) (.int k) := by
  obtain ⟨c, u, he, hc⟩ := decimal_head k
  have hne {d : Char} (hd : (d != '-' && !d.isDigit) = true) : c ≠ d := by
    simp only [Bool.and_eq_true, bne_iff_ne, Bool.not_eq_true'] at hd
    exact ne_of_numeric hc hd.1 hd.2
  refine ⟨⟨c, u, he, ?_, hne rfl, hne rfl⟩, fun rest hrest => ?_⟩
  · simp only [isSpace, Bool.or_eq_false_iff, beq_eq_false_iff_ne]
    exact ⟨⟨⟨hne rfl, hne rfl⟩, hne rfl⟩, hne rfl⟩
  · have hread := number_decimal k hrest
    rw [he, List.cons_append] at hread ⊢
    rw [value_scalar (hne rfl) (hne rfl), scalar, if_neg (hne rfl), if_neg (hne rfl),
      if_neg (hne rfl), if_neg (hne rfl), hread]

theorem reads_arr {ts : List (List Char)} {items : List Value}
    (h : List.Forall₂ (Reads (value n)) ts items) :
    Reads (value (n + 1)) ('[' :: joined ts ++ [']']) (.arr items) := by
  refine ⟨⟨'[', _, rfl, by decide, by decide, by decide⟩, fun rest _ => ?_⟩
  rw [List.append_assoc, List.cons_append, List.singleton_append, value, if_pos rfl,
    parts_joined (Or.inl rfl) h]
  rfl

theorem reads_obj {ts : List (List Char)} {fields : List (String × Value)}
    (h : List.Forall₂ (Reads (member (value n))) ts fields) (hkeys : (fields.map (·.1)).Nodup) :
    Reads (value (n + 1)) ('{' :: joined ts ++ ['}']) (.obj fields) := by
  refine ⟨⟨'{', _, rfl, by decide, by decide, by decide⟩, fun rest _ => ?_⟩
  rw [List.append_assoc, List.cons_append, List.singleton_append, value, if_neg (by decide),
    if_pos rfl, parts_joined (Or.inr rfl) h]
  simp [foldl_assign fields [] (by simpa using hkeys)]

end Hf2l.Lib.Json
