import Mathlib.Data.Int.Log
import Mathlib.Data.Rat.Floor
import Mathlib.Tactic.Linarith
import Mathlib.Tactic.FieldSimp

/-!
# `Hf2l.Lib.Binary64`: rounding to 53 significant bits

`nearest q` is the binary64 number next to a rational `q`, ties to even. The range of the
exponent is left open, so `nearest` is the rounding of a quotient that is neither too large nor too
small for the format.

A rounded value is off by at most one part in `2 ^ 53` (`le_nearest`), and it never passes a whole
number up to `2 ^ 53` (`nearest_le`). `ceil_nearest` puts the two together: rounding a quotient of
whole numbers below `2 ^ 53` does not change how many units it takes to cover it.
-/

set_option autoImplicit false

namespace Hf2l.Lib.Binary64

/-- The whole number next to `x`, ties to even. -/
def halfEven (x : ℚ) : Int :=
  if x - ⌊x⌋ < 1 / 2 then ⌊x⌋
  else if 1 / 2 < x - ⌊x⌋ then ⌊x⌋ + 1
  else if ⌊x⌋ % 2 = 0 then ⌊x⌋
  else ⌊x⌋ + 1

/-- The distance between two neighbours at `q`. -/
def ulp (q : ℚ) : ℚ := 2 ^ (Int.log 2 |q| - 52)

/-- The number with 53 significant bits next to `q`. -/
def nearest (q : ℚ) : ℚ := halfEven (q / ulp q) * ulp q

theorem ulp_pos (q : ℚ) : 0 < ulp q := zpow_pos (by norm_num) _

variable {q : ℚ} {a b : Nat}

theorem ulp_of_pos (hq : 0 < q) : ulp q = 2 ^ (Int.log 2 q - 52) := by
  unfold ulp
  rw [abs_of_pos hq]

theorem sub_half_le_halfEven (x : ℚ) : x - 1 / 2 ≤ halfEven x := by
  have hfloor : (⌊x⌋ : ℚ) ≤ x := Int.floor_le x
  have hlt : x < ⌊x⌋ + 1 := Int.lt_floor_add_one x
  unfold halfEven
  split
  · linarith
  split
  · push_cast
    linarith
  split
  · linarith
  · push_cast
    linarith

/-- Rounding does not pass a whole number. -/
theorem halfEven_le {x : ℚ} {n : Int} (h : x ≤ n) : halfEven x ≤ n := by
  rcases eq_or_lt_of_le h with heq | hlt
  · -- A whole number is its own floor.
    subst heq
    simp [halfEven]
  · have hfloor : ⌊x⌋ < n := Int.floor_lt.mpr hlt
    unfold halfEven
    split
    · omega
    split
    · omega
    split <;> omega

/-- **The error of a rounding.** -/
theorem le_nearest (hq : 0 < q) : q - q / 2 ^ 53 ≤ nearest q := by
  have hulp := ulp_pos q
  have hhalf := sub_half_le_halfEven (q / ulp q)
  have hbelow : ulp q / 2 ≤ q / 2 ^ 53 := by
    have hlog : (2 : ℚ) ^ Int.log 2 q ≤ q := by
      have := Int.zpow_log_le_self (b := 2) (by norm_num) hq
      simpa using this
    have hsplit : ulp q = 2 ^ Int.log 2 q / 2 ^ 52 := by
      rw [ulp_of_pos hq, zpow_sub₀ (by norm_num)]
      norm_num
    rw [hsplit, div_div, div_le_div_iff₀ (by norm_num) (by norm_num)]
    norm_num
    linarith
  have hscaled : (q / ulp q - 1 / 2) * ulp q = q - ulp q / 2 := by
    field_simp
  calc q - q / 2 ^ 53 ≤ q - ulp q / 2 := by linarith
    _ = (q / ulp q - 1 / 2) * ulp q := hscaled.symm
    _ ≤ nearest q := mul_le_mul_of_nonneg_right hhalf (le_of_lt hulp)

/-- Below `2 ^ 53` every whole number is a multiple of the distance between neighbours. -/
theorem exists_mul_ulp (hq : 0 < q) (hlt : q < 2 ^ 53) (n : Nat) :
    ∃ m : Int, (n : ℚ) = m * ulp q := by
  have hlog : Int.log 2 q ≤ 52 := by
    have hlt' : Int.log 2 q < 53 := by
      rw [← Int.lt_zpow_iff_log_lt (by norm_num) hq]
      exact_mod_cast hlt
    omega
  refine ⟨n * 2 ^ (52 - Int.log 2 q).toNat, ?_⟩
  have hexp : ((52 - Int.log 2 q).toNat : Int) = 52 - Int.log 2 q := Int.toNat_of_nonneg (by omega)
  have hone : (2 : ℚ) ^ (52 - Int.log 2 q).toNat * ulp q = 1 := by
    rw [ulp_of_pos hq, ← zpow_natCast, hexp, ← zpow_add₀ (by norm_num)]
    norm_num
  push_cast
  rw [mul_assoc, hone, mul_one]

/-- **A rounding never passes a whole number.** -/
theorem nearest_le {n : Nat} (hq : 0 < q) (h : q ≤ n) (hn : n ≤ 2 ^ 53) : nearest q ≤ n := by
  have hulp := ulp_pos q
  by_cases hlt : q < 2 ^ 53
  · obtain ⟨m, hm⟩ := exists_mul_ulp hq hlt n
    have hle : q / ulp q ≤ m := by
      rw [div_le_iff₀ hulp, ← hm]
      exact h
    have hround : (halfEven (q / ulp q) : ℚ) ≤ m := by exact_mod_cast halfEven_le hle
    calc nearest q = halfEven (q / ulp q) * ulp q := rfl
      _ ≤ m * ulp q := mul_le_mul_of_nonneg_right hround (le_of_lt hulp)
      _ = n := hm.symm
  · -- The value is `2 ^ 53` itself.
    have hcast : (n : ℚ) ≤ 2 ^ 53 := by exact_mod_cast hn
    have heq : q = 2 ^ 53 := by linarith
    have hnq : (n : ℚ) = 2 ^ 53 := by linarith
    rw [hnq, heq]
    have hlog : Int.log 2 ((2 : ℚ) ^ 53) = 53 := by
      have := Int.log_zpow (R := ℚ) (b := 2) (by norm_num) 53
      simpa using this
    have hulp' : ulp ((2 : ℚ) ^ 53) = 2 := by
      rw [ulp_of_pos (by norm_num), hlog]
      norm_num
    have hround : halfEven ((2 : ℚ) ^ 53 / 2) ≤ 2 ^ 52 := halfEven_le (by norm_num)
    have hround' : (halfEven ((2 : ℚ) ^ 53 / 2) : ℚ) ≤ 2 ^ 52 := by exact_mod_cast hround
    unfold nearest
    rw [hulp']
    linarith

/-! ### Units that cover a quotient -/

/-- A value that is less than one part below `a / b`, and not above the next whole number, takes as
many units as `a / b`. -/
theorem ceil_eq_of_near {r : ℚ} (ha : 0 < a) (hb : 0 < b) (hlow : (a : ℚ) / b - 1 / b < r)
    (hhigh : ∀ n : Nat, (a : ℚ) / b ≤ n → (n : ℚ) < a / b + 1 → r ≤ n) : ⌈r⌉ = ⌈(a : ℚ) / b⌉ := by
  have hb' : (0 : ℚ) < b := by exact_mod_cast hb
  have hpos : (0 : ℚ) < a / b := div_pos (by exact_mod_cast ha) hb'
  obtain ⟨n, hn⟩ : ∃ n : Nat, ⌈(a : ℚ) / b⌉ = n := Int.eq_ofNat_of_zero_le (Int.ceil_nonneg hpos.le)
  have hle : (a : ℚ) / b ≤ n := by
    have := Int.le_ceil ((a : ℚ) / b)
    rw [hn] at this
    exact_mod_cast this
  have hgt : (n : ℚ) < a / b + 1 := by
    have := Int.ceil_lt_add_one ((a : ℚ) / b)
    rw [hn] at this
    exact_mod_cast this
  rw [hn, Int.ceil_eq_iff]
  push_cast
  refine ⟨?_, hhigh n hle hgt⟩
  -- `a - (n - 1) b` is a positive whole number, so at least one part lies above `n - 1`.
  have hlt : ((n : Int) - 1) * b < a := by
    have h := (lt_div_iff₀ hb').mp (show (n : ℚ) - 1 < a / b by linarith)
    exact_mod_cast h
  have hpart : ((n : ℚ) - 1) * b + 1 ≤ a := by exact_mod_cast hlt
  have hsplit : (n : ℚ) - 1 ≤ a / b - 1 / b := by
    rw [← sub_div, le_div_iff₀ hb']
    linarith
  linarith

/-- **Rounding a quotient** does not change how many units cover it. -/
theorem ceil_nearest (hb : 0 < b) (ha : 0 < a) (h : a < 2 ^ 53) :
    ⌈nearest ((a : ℚ) / b)⌉ = ⌈(a : ℚ) / b⌉ := by
  have hb' : (0 : ℚ) < b := by exact_mod_cast hb
  have hpos : (0 : ℚ) < a / b := div_pos (by exact_mod_cast ha) hb'
  have hlt : (a : ℚ) < 2 ^ 53 := by exact_mod_cast h
  have hself : (a : ℚ) / b ≤ a := div_le_self (by positivity) (by exact_mod_cast hb)
  refine ceil_eq_of_near ha hb ?_ fun n hn hlt' => nearest_le hpos hn ?_
  rotate_left
  · have hn' : (n : ℚ) < a + 1 := by linarith
    have hna : n < a + 1 := by exact_mod_cast hn'
    omega
  have herror : (a : ℚ) / b / 2 ^ 53 < 1 / b := by
    rw [div_div, div_lt_div_iff₀ (by positivity) hb']
    nlinarith
  have hnear := le_nearest hpos
  linarith

/-- **Rounding twice**: dividing by `b` and then by `c`, with a rounding after each, does not change
how many units cover the quotient. -/
theorem ceil_nearest_div {c : Nat} (hb : 0 < b) (hc : 0 < c) (ha : 0 < a) (h : a < 2 ^ 52)
    (hac : a + c ≤ 2 ^ 53) :
    ⌈nearest (nearest ((a : ℚ) / b) / c)⌉ = ⌈(a : ℚ) / ((b * c : Nat) : ℚ)⌉ := by
  have hb' : (0 : ℚ) < b := by exact_mod_cast hb
  have hc' : (0 : ℚ) < c := by exact_mod_cast hc
  have ha' : (0 : ℚ) < a := by exact_mod_cast ha
  have hlt : (a : ℚ) < 2 ^ 52 := by exact_mod_cast h
  have hpos : (0 : ℚ) < a / b := div_pos ha' hb'
  have hfirst := le_nearest hpos
  have hpos₁ : 0 < nearest ((a : ℚ) / b) := by linarith
  have hpos₂ : 0 < nearest ((a : ℚ) / b) / c := div_pos hpos₁ hc'
  have hsecond := le_nearest hpos₂
  have hcast : ((b * c : Nat) : ℚ) = b * c := by push_cast; ring
  refine ceil_eq_of_near ha (Nat.mul_pos hb hc) ?_ ?_
  · -- Each rounding takes off at most one part in `2 ^ 53`, so both at most one in `2 ^ 52`.
    have hscaled : (a : ℚ) / b / c - a / b / 2 ^ 53 / c ≤ nearest ((a : ℚ) / b) / c := by
      rw [← sub_div]
      exact div_le_div_of_nonneg_right hfirst hc'.le
    have htwice : (a : ℚ) / b / c - a / b / c / 2 ^ 52 ≤ nearest (nearest ((a : ℚ) / b) / c) := by
      have hswap : (a : ℚ) / b / 2 ^ 53 / c = a / b / c / 2 ^ 53 := by ring
      have hq : 0 ≤ (a : ℚ) / b / c := by positivity
      rw [hswap] at hscaled
      nlinarith
    have herror : (a : ℚ) / b / c / 2 ^ 52 < 1 / (b * c) := by
      rw [div_div, div_div, div_lt_div_iff₀ (by positivity) (by positivity)]
      nlinarith [mul_pos hb' hc']
    rw [hcast, ← div_div]
    linarith
  · intro n hn hlt'
    rw [hcast, ← div_div] at hn hlt'
    have hn' : (a : ℚ) / b ≤ ((n * c : Nat) : ℚ) := by
      push_cast
      exact (div_le_iff₀ hc').mp hn
    have hself : (a : ℚ) / b ≤ a := div_le_self ha'.le (by exact_mod_cast hb)
    have hbound : n * c ≤ 2 ^ 53 := by
      have hclose : (n : ℚ) * c < a / b + c := by
        have hm := mul_lt_mul_of_pos_right hlt' hc'
        rwa [add_mul, div_mul_cancel₀ _ hc'.ne', one_mul] at hm
      have hnat : ((n * c : Nat) : ℚ) < ((a + c : Nat) : ℚ) := by
        push_cast
        linarith
      have hnat' : n * c < a + c := by exact_mod_cast hnat
      omega
    have hround := nearest_le hpos hn' hbound
    refine nearest_le hpos₂ ?_ (le_trans (Nat.le_mul_of_pos_right n hc) hbound)
    rw [div_le_iff₀ hc']
    push_cast at hround
    exact hround

/-- The ceiling of a quotient of whole numbers, by whole numbers. -/
theorem ceil_natCast_div (hb : 0 < b) : ⌈(a : ℚ) / b⌉ = ((a + b - 1) / b : Nat) := by
  have hb' : (0 : ℚ) < b := by exact_mod_cast hb
  have hmod := Nat.div_add_mod (a + b - 1) b
  have hlt := Nat.mod_lt (a + b - 1) hb
  generalize (a + b - 1) / b = q at hmod ⊢
  rw [Int.ceil_eq_iff]
  constructor
  · rw [lt_div_iff₀ hb', sub_mul, one_mul]
    have : q * b < a + b := by
      rw [Nat.mul_comm]
      omega
    have hcast : ((q * b : Nat) : ℚ) < a + b := by exact_mod_cast this
    push_cast at hcast ⊢
    linarith
  · rw [div_le_iff₀ hb']
    have : a ≤ q * b := by
      rw [Nat.mul_comm]
      omega
    exact_mod_cast this

@[simp] theorem nearest_zero : nearest 0 = 0 := by
  simp [nearest, halfEven]

end Hf2l.Lib.Binary64
