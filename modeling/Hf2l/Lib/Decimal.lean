import Hf2l.Lib.JsonText
import Mathlib.Algebra.Field.Rat
import Mathlib.Algebra.GroupWithZero.Basic

/-!
# `Hf2l.Lib.Decimal`: decimal literals and the numbers they denote

A `Decimal` is a JSON number that is no integer literal: digits, a fraction and an exponent, not
both of them missing. The reader of JSON takes its text whole (`Decimal.number_text`). `denotes`
reads a text as a rational number, that of all its digits, moved by the exponent and by the length
of the fraction (`Decimal.denotes_text`).
-/

set_option autoImplicit false

namespace Hf2l.Lib.Json

structure Decimal where
  negative : Bool
  whole : List Char
  part : List Char
  exponent : Option Int
  whole_digits : ∃ c ds, whole = c :: ds ∧ (c = '0' → ds = []) ∧ ∀ x ∈ c :: ds, x.isDigit = true
  part_digits : ∀ c ∈ part, c.isDigit = true
  real : part = [] → exponent ≠ none

def minus (negative : Bool) : List Char := if negative then ['-'] else []

/-- The digits of a number, two at least. -/
def twoDigits (n : Nat) : List Char := if n < 10 then '0' :: decimalNat n else decimalNat n

def partText (part : List Char) : List Char := if part = [] then [] else '.' :: part

def scaleText : Option Int → List Char
  | none => []
  | some e => 'e' :: (if e < 0 then '-' else '+') :: twoDigits e.natAbs

def Decimal.text (d : Decimal) : List Char :=
  minus d.negative ++ (d.whole ++ (partText d.part ++ scaleText d.exponent))

def quantity (negative : Bool) (digits : List Char) (power : Int) : ℚ :=
  (if negative then -1 else 1) * digitsValue digits * 10 ^ power

def Decimal.value (d : Decimal) : ℚ :=
  quantity d.negative (d.whole ++ d.part) (d.exponent.getD 0 - d.part.length)

/-! ### Reading -/

/-- The value of digits after a sign. -/
def signedValue : List Char → Int
  | [] => 0
  | c :: ds =>
    if c = '-' then -(digitsValue ds : Int) else if c = '+' then digitsValue ds
    else digitsValue (c :: ds)

/-- The number after its sign. -/
def denotesUnsigned (negative : Bool) (cs : List Char) : Option ℚ := do
  let (whole, rest) ← intPart cs
  let (part, rest) ← fraction rest
  let (scale, rest) ← exponent rest
  if rest = [] then
    return quantity negative (whole ++ part.tail) (signedValue scale.tail - part.tail.length)
  else none

def denotes : List Char → Option ℚ
  | [] => none
  | c :: rest => if c = '-' then denotesUnsigned true rest else denotesUnsigned false (c :: rest)

/-! ### Digits -/

variable {ds rest : List Char}

theorem digitsValue_append (as : List Char) :
    digitsValue (as ++ ds) = digitsValue as * 10 ^ ds.length + digitsValue ds := by
  have hfold : ∀ n, ds.foldl (fun n c => 10 * n + (c.toNat - 48)) n = n * 10 ^ ds.length +
      digitsValue ds := by
    induction ds with
    | nil => intro n; simp [digitsValue]
    | cons c ds ih =>
      intro n
      rw [digitsValue, List.foldl_cons, List.foldl_cons, ih, ih, List.length_cons, pow_succ]
      ring
  rw [digitsValue, List.foldl_append, hfold]
  rfl

/-- Zeros at the end are a power of ten, those in front are nothing. -/
theorem digitsValue_padded (k m : Nat) :
    digitsValue (List.replicate k '0' ++ ds ++ List.replicate m '0') = digitsValue ds * 10 ^ m := by
  have hzeros : ∀ k, digitsValue (List.replicate k '0') = 0 := by
    intro k
    induction k with
    | zero => rfl
    | succ k ih => exact ih
  simp [digitsValue_append, hzeros]

theorem someDigits_stop (h : ∀ c ∈ ds, c.isDigit = true) (hne : ds ≠ [])
    (hr : rest.takeWhile Char.isDigit = []) :
    someDigits (ds ++ rest) = some (ds, rest) := by
  obtain ⟨htake, hdrop⟩ := digits_stop h hr
  rw [someDigits, htake, hdrop, if_neg hne]

theorem twoDigits_digits (n : Nat) : (∀ c ∈ twoDigits n, c.isDigit = true) ∧ twoDigits n ≠ [] := by
  obtain ⟨c, ds, he, -, hdigits⟩ := decimalNat_cons n
  unfold twoDigits
  rw [he]
  split
  · exact ⟨List.forall_mem_cons.mpr ⟨rfl, hdigits⟩, List.cons_ne_nil _ _⟩
  · exact ⟨hdigits, List.cons_ne_nil _ _⟩

/-! ### The text of a decimal -/

theorem partText_tail (part : List Char) : (partText part).tail = part := by
  unfold partText
  split
  · next h => exact h.symm
  · rfl

theorem scaleText_stop (e : Option Int) : (scaleText e).takeWhile Char.isDigit = [] := by
  cases e <;> rfl

/-- The exponent is read back. -/
theorem signedValue_scaleText (e : Option Int) : signedValue (scaleText e).tail = e.getD 0 := by
  cases e with
  | none => rfl
  | some e =>
    have hvalue : ∀ n, digitsValue (twoDigits n) = n := by
      intro n
      unfold twoDigits
      split <;> exact digitsValue_decimalNat n
    show signedValue ((if e < 0 then '-' else '+') :: twoDigits e.natAbs) = e
    split
    · rw [signedValue, if_pos rfl, hvalue]
      omega
    · rw [signedValue, if_neg (by decide), if_pos rfl, hvalue]
      omega

theorem exponent_scaleText (e : Option Int) : exponent (scaleText e) = some (scaleText e, []) := by
  cases e with
  | none => rfl
  | some e =>
    obtain ⟨hdigits, hne⟩ := twoDigits_digits e.natAbs
    have hread : someDigits (twoDigits e.natAbs ++ []) = _ := someDigits_stop hdigits hne rfl
    rw [List.append_nil] at hread
    rw [scaleText, exponent, if_pos (Or.inl rfl)]
    split <;> simp [sign, hread]

namespace Decimal
variable (d : Decimal)

theorem intPart_text : intPart (d.whole ++ (partText d.part ++ scaleText d.exponent)) =
    some (d.whole, partText d.part ++ scaleText d.exponent) := by
  obtain ⟨c, ds, hw, hzero, hds⟩ := d.whole_digits
  have hstop : (partText d.part ++ scaleText d.exponent).takeWhile Char.isDigit = [] := by
    unfold partText
    split
    · exact scaleText_stop _
    · rfl
  rw [hw]
  exact intPart_digits hds hzero hstop

theorem fraction_text :
    fraction (partText d.part ++ scaleText d.exponent) =
    some (partText d.part, scaleText d.exponent) := by
  unfold partText
  split
  · cases d.exponent <;> rfl
  · next h =>
    rw [List.cons_append, fraction, if_pos rfl, someDigits_stop d.part_digits h (scaleText_stop _)]
    rfl

/-- A reader that looks for a sign first reads the text with the sign that it has. -/
theorem signed_text {α : Type} {f : List Char → α} {g : Bool → List Char → α}
    (hf : ∀ c t, f (c :: t) = if c = '-' then g true t else g false (c :: t)) :
    f d.text = g d.negative (d.whole ++ (partText d.part ++ scaleText d.exponent)) := by
  obtain ⟨c, ds, hw, -, hds⟩ := d.whole_digits
  have hminus : c ≠ '-' := by
    rintro rfl
    cases hds _ List.mem_cons_self
  unfold text
  cases d.negative with
  | true => exact hf '-' _
  | false =>
    rw [hw]
    exact (hf c _).trans (if_neg hminus)

theorem number_text : number d.text = some (.real (String.ofList d.text), []) := by
  have hreal : partText d.part = [] → scaleText d.exponent ≠ [] := by
    have h := d.real
    unfold partText
    cases he : d.exponent <;> simp_all [scaleText]
  rw [d.signed_text (f := number) (g := unsigned) fun c t => rfl]
  simp [unsigned, d.intPart_text, d.fraction_text, exponent_scaleText, if_neg (not_and.mpr hreal),
    text, minus]

theorem denotes_text : denotes d.text = some d.value := by
  have hlength : (partText d.part).length - 1 =
      d.part.length := by rw [← List.length_tail, partText_tail]
  rw [d.signed_text (f := denotes) (g := denotesUnsigned) fun c t => rfl]
  simp [denotesUnsigned, d.intPart_text, d.fraction_text, exponent_scaleText, partText_tail,
    signedValue_scaleText, value, hlength]

end Decimal

end Hf2l.Lib.Json
