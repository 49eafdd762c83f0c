import Hf2l.Lib.Decimal

/-!
# `Hf2l.Exchange.Domain.PythonFloat`: floats spelled as Python spells them

`pythonFloat` of `internal/domain/json.go`. The canonical JSON of the Go exchange must be that of
the Python exchange, so that a float is written as `repr` writes it. The code takes the shortest
digits from `strconv.FormatFloat`, in scientific form, and moves the point.

A finite float is a zero or the shortest decimal that `FormatFloat` finds for it.
-/

set_option autoImplicit false

namespace Hf2l.Exchange.Domain

open Lib.Json

/-- A shortest decimal `± d.ddd · 10 ^ exponent`. -/
structure Shortest where
  negative : Bool
  lead : Char
  rest : List Char
  exponent : Int
  lead_digit : lead.isDigit = true
  lead_ne_zero : lead ≠ '0'
  rest_digits : ∀ c ∈ rest, c.isDigit = true
  shortest : rest.getLast? ≠ some '0'

inductive Finite where
  | zero (negative : Bool)
  | nonzero (x : Shortest)

namespace Shortest
variable (x : Shortest)

def digits : List Char := x.lead :: x.rest

/-- `d.ddd` and the exponent. -/
def scientific : Decimal where
  negative := x.negative
  whole := [x.lead]
  part := x.rest
  exponent := some x.exponent
  whole_digits := ⟨x.lead, [], rfl, fun _ => rfl, List.forall_mem_singleton.mpr x.lead_digit⟩
  part_digits := x.rest_digits
  real _ := Option.some_ne_none _

end Shortest

/-- `pythonFloat`, where `raw` is `strconv.FormatFloat(f, 'e', -1, 64)`. The exponent of a float has
three digits at most, so that `Atoi` reads it. -/
def pythonFloat : Finite → List Char
  | .zero negative => if negative then ['-', '0', '.', '0'] else ['0', '.', '0']
  | .nonzero x =>
    let raw := x.scientific.text
    let mantissa := raw.takeWhile (· != 'e')
    let exponent := signedValue (raw.dropWhile (· != 'e')).tail
    if -4 ≤ exponent ∧ exponent < 16 then
      let sign := if mantissa.head? = some '-' then ['-'] else []
      let digits := (mantissa.drop sign.length).filter (· != '.')
      let decimal := exponent + 1
      if decimal ≤ 0 then sign ++ ['0', '.'] ++ List.replicate (-decimal).toNat '0' ++ digits
      else if decimal ≥ digits.length then
        sign ++ digits ++ List.replicate (decimal - digits.length).toNat '0' ++ ['.', '0']
      else sign ++ digits.take decimal.toNat ++ ['.'] ++ digits.drop decimal.toNat
    else mantissa ++ ['e', if exponent < 0 then '-' else '+'] ++ twoDigits exponent.natAbs

/-! ### The layout of `repr` -/

namespace Shortest
variable (x : Shortest)

/-- The digits, with zeros up to the point on either side and one behind it. -/
def padded : List Char :=
  List.replicate (-x.exponent).toNat '0' ++ x.digits ++
    List.replicate (x.exponent + 2 - x.digits.length).toNat '0'

/-- How many digits stand in front of the point. -/
def before : Nat := (max 1 (x.exponent + 1)).toNat

theorem padded_digit : ∀ c ∈ x.padded, c.isDigit = true := by
  intro c hc
  simp only [padded, List.mem_append, List.mem_replicate] at hc
  rcases hc with (⟨-, rfl⟩ | hc) | ⟨-, rfl⟩
  · rfl
  · exact (List.mem_cons.mp hc).elim (fun h => h ▸ x.lead_digit) (x.rest_digits c)
  · rfl

theorem length_padded :
    x.padded.length = (-x.exponent).toNat + x.digits.length +
      (x.exponent + 2 - x.digits.length).toNat := by
  rw [padded, List.length_append, List.length_append, List.length_replicate, List.length_replicate]

/-- In front of the point stands one zero, or digits of which the first is not zero. -/
theorem take_padded : ∃ c ds, x.padded.take x.before = c :: ds ∧ (c = '0' → ds = []) := by
  by_cases h : x.exponent < 0
  · refine ⟨'0', [], ?_, fun _ => rfl⟩
    rw [padded, before, show (-x.exponent).toNat = (-x.exponent - 1).toNat + 1 by omega,
      show (max 1 (x.exponent + 1)).toNat = 1 by omega]
    rfl
  · rw [padded, before, show (-x.exponent).toNat = 0 by omega,
      show (max 1 (x.exponent + 1)).toNat = x.exponent.toNat + 1 by omega]
    exact ⟨x.lead, _, rfl, fun h => absurd h x.lead_ne_zero⟩

/-- The number without an exponent. -/
def positional : Decimal where
  negative := x.negative
  whole := x.padded.take x.before
  part := x.padded.drop x.before
  exponent := none
  whole_digits := by
    obtain ⟨c, ds, he, hzero⟩ := x.take_padded
    exact ⟨c, ds, he, hzero, fun d hd => x.padded_digit d (List.mem_of_mem_take (he ▸ hd))⟩
  part_digits c hc := x.padded_digit c (List.mem_of_mem_drop hc)
  real h := by
    have hlen : x.digits.length = x.rest.length + 1 := rfl
    have hpadded := x.length_padded
    have hle := List.drop_eq_nil_iff.mp h
    unfold before at hle
    omega

end Shortest

/-- Python's `repr`. -/
def repr : Finite → List Char
  | .zero negative => minus negative ++ ['0', '.', '0']
  | .nonzero x => if -4 ≤ x.exponent ∧ x.exponent < 16 then x.positional.text else x.scientific.text

def Finite.value : Finite → ℚ
  | .zero _ => 0
  | .nonzero x => x.scientific.value

/-! ### The code writes this layout -/

namespace Shortest
variable (x : Shortest)

theorem ne_of_isDigit {c d : Char} (hc : c.isDigit = true) (hd : d.isDigit = false) :
    (c != d) = true :=
  bne_iff_ne.mpr fun h => by rw [h, hd] at hc; cases hc

/-- The mantissa ends where the exponent begins. -/
theorem mantissa_plain :
    ∀ c ∈ minus x.negative ++ x.lead :: partText x.rest, (c != 'e') = true := by
  have hrest : ∀ c ∈ partText x.rest, (c != 'e') = true := by
    unfold partText
    split
    · simp
    · exact List.forall_mem_cons.mpr ⟨rfl, fun c hc => ne_of_isDigit (x.rest_digits c hc) rfl⟩
  intro c hc
  simp only [minus, List.mem_append, List.mem_ite_nil_right, List.mem_cons, List.not_mem_nil,
    or_false] at hc
  rcases hc with ⟨-, rfl⟩ | rfl | hc
  · rfl
  · exact ne_of_isDigit x.lead_digit rfl
  · exact hrest c hc

/-- Without its point the mantissa is the digits. -/
theorem filter_mantissa : (x.lead :: partText x.rest).filter (· != '.') = x.digits := by
  have hrest : x.rest.filter (· != '.') = x.rest :=
    List.filter_eq_self.mpr fun c hc => ne_of_isDigit (x.rest_digits c hc) rfl
  rw [List.filter_cons_of_pos (p := (· != '.')) (ne_of_isDigit x.lead_digit rfl), digits]
  congr 1
  unfold partText
  split
  · next h => exact h.symm
  · exact hrest

/-- The three ways to place the point are one: behind the first digits of the padded text. -/
theorem placed_eq (sign : List Char) :
    (if x.exponent + 1 ≤ 0 then sign ++ ['0', '.'] ++
      List.replicate (-(x.exponent + 1)).toNat '0' ++ x.digits
      else if x.exponent + 1 ≥ x.digits.length then
        sign ++ x.digits ++ List.replicate (x.exponent + 1 - x.digits.length).toNat '0' ++
          ['.', '0']
      else
        sign ++ x.digits.take (x.exponent + 1).toNat ++ ['.'] ++
          x.digits.drop (x.exponent + 1).toNat) =
    sign ++ (x.padded.take x.before ++ '.' :: x.padded.drop x.before) := by
  have hlen : x.digits.length = x.rest.length + 1 := rfl
  unfold padded before
  split
  · -- A zero, and all the digits behind the point.
    rw [show (-x.exponent).toNat = (-(x.exponent + 1)).toNat + 1 by omega,
      show (x.exponent + 2 - x.digits.length).toNat = 0 by omega,
        show (max 1 (x.exponent + 1)).toNat = 1 by omega]
    simp [List.replicate_succ]
  · rw [show (-x.exponent).toNat = 0 by omega,
      show max 1 (x.exponent + 1) = x.exponent + 1 by omega]
    split
    · -- Zeros up to the point, and one behind it.
      generalize hk : (x.exponent + 1 - x.digits.length).toNat = k
      have hbefore : (x.exponent + 1).toNat = (x.digits ++ List.replicate k '0').length := by
        rw [List.length_append, List.length_replicate]
        omega
      rw [show (x.exponent + 2 - x.digits.length).toNat = k + 1 by omega, List.replicate_succ',
        List.replicate_zero, List.nil_append, ← List.append_assoc x.digits, hbefore, List.take_left,
        List.drop_left]
      simp
    · rw [show (x.exponent + 2 - x.digits.length).toNat = 0 by omega]
      simp

theorem positional_text : x.positional.text =
    minus x.negative ++ (x.padded.take x.before ++ '.' :: x.padded.drop x.before) := by
  have hne : x.padded.drop x.before ≠ [] := fun h => x.positional.real h rfl
  show minus x.negative ++ (_ ++ (partText (x.padded.drop x.before) ++ [])) = _
  rw [partText, if_neg hne, List.append_nil]
  rfl

end Shortest

theorem pythonFloat_eq (f : Finite) : pythonFloat f = repr f := by
  cases f with
  | zero negative => cases negative <;> rfl
  | nonzero x =>
    have hraw : x.scientific.text = (minus x.negative ++ x.lead :: partText x.rest) ++
        scaleText (some x.exponent) := by
      simp [Decimal.text, Shortest.scientific]
    have htake : x.scientific.text.takeWhile (· != 'e') = minus x.negative ++ x.lead ::
        partText x.rest := by
      rw [hraw, List.takeWhile_append_of_pos x.mantissa_plain]
      exact List.append_nil _
    have hdrop : x.scientific.text.dropWhile (· != 'e') = scaleText (some x.exponent) := by
      rw [hraw, List.dropWhile_append_of_pos x.mantissa_plain]
      rfl
    have hsign : (if (minus x.negative ++ x.lead :: partText x.rest).head? =
        some '-' then ['-'] else []) = minus x.negative := by
      cases x.negative with
      | true => rfl
      | false =>
        refine if_neg fun h => ?_
        have hlead := x.lead_digit
        rw [Option.some.inj h] at hlead
        cases hlead
    simp only [pythonFloat, repr, htake, hdrop, signedValue_scaleText, Option.getD_some, hsign,
      List.drop_left, x.filter_mantissa, x.placed_eq, x.positional_text]
    split
    · rfl
    · rw [hraw, scaleText, List.append_assoc]
      rfl

/-- The zeros on the right and the place of the point make up for each other. -/
theorem Shortest.positional_value (x : Shortest) : x.positional.value = x.scientific.value := by
  have hlen : x.digits.length = x.rest.length + 1 := rfl
  have hpower : ((x.exponent + 2 - x.digits.length).toNat : Int) +
      (0 - (x.padded.drop x.before).length) = x.exponent - x.rest.length := by
    rw [List.length_drop, x.length_padded, before]
    omega
  show quantity x.negative (x.padded.take x.before ++ x.padded.drop x.before)
    (0 - (x.padded.drop x.before).length) = quantity x.negative x.digits
    (x.exponent - x.rest.length)
  rw [quantity, quantity, List.take_append_drop, ← hpower, zpow_add₀ (by norm_num),
    zpow_natCast, padded, digitsValue_padded]
  push_cast
  ring

/-- **The text of a float** denotes its decimal, is a number of JSON and no integer literal, and is
what Python writes. -/
theorem pythonFloat_sound (f : Finite) : denotes (pythonFloat f) = some f.value ∧
      number (pythonFloat f) = some (.real (String.ofList (pythonFloat f)), []) ∧
      ('.' ∈ pythonFloat f ∨ 'e' ∈ pythonFloat f) ∧ pythonFloat f = repr f := by
  rw [pythonFloat_eq]
  cases f with
  | zero negative =>
    let d : Decimal :=
      ⟨negative, ['0'], ['0'], none, ⟨'0', [], rfl, fun _ => rfl, by simp⟩, by simp, by simp⟩
    refine ⟨d.denotes_text.trans (congrArg some ?_), d.number_text, ?_, rfl⟩
    · simp [d, Decimal.value, quantity, digitsValue, Finite.value]
    · simp [repr]
  | nonzero x =>
    show denotes (if _ then x.positional.text else x.scientific.text) = some x.scientific.value ∧ _
    by_cases h : -4 ≤ x.exponent ∧ x.exponent < 16
    · rw [repr, if_pos h, ← x.positional_value]
      exact ⟨x.positional.denotes_text, x.positional.number_text,
        Or.inl (by simp [x.positional_text]), rfl⟩
    · rw [repr, if_neg h]
      refine ⟨x.scientific.denotes_text, x.scientific.number_text, Or.inr ?_, rfl⟩
      simp [Decimal.text, Shortest.scientific, scaleText]

/-- The float `1.5 · 10 ^ exponent`. -/
def oneAndHalf (exponent : Int) : Shortest where
  negative := false
  lead := '1'
  rest := ['5']
  exponent := exponent
  lead_digit := by decide
  lead_ne_zero := by decide
  rest_digits := by simp
  shortest := by simp

/-- A float within the limits of the positional layout, and a float below them. -/
theorem pythonFloat_sound_oneAndHalf :
    pythonFloat (.nonzero (oneAndHalf 10)) = "15000000000.0".toList ∧
      denotes "15000000000.0".toList = some (Finite.value (.nonzero (oneAndHalf 10))) ∧
    pythonFloat (.nonzero (oneAndHalf (-5))) = "1.5e-05".toList ∧
      denotes "1.5e-05".toList = some (Finite.value (.nonzero (oneAndHalf (-5)))) := by
  have hlarge : pythonFloat (.nonzero (oneAndHalf 10)) = "15000000000.0".toList := by decide +kernel
  have hsmall : pythonFloat (.nonzero (oneAndHalf (-5))) = "1.5e-05".toList := by decide +kernel
  exact ⟨hlarge, hlarge ▸ (pythonFloat_sound _).1, hsmall, hsmall ▸ (pythonFloat_sound _).1⟩

end Hf2l.Exchange.Domain
