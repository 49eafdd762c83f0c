import Mathlib.Computability.RegularExpressions
import Mathlib.Data.Nat.Digits.Defs

/-!
# `Hf2l.Lib.Pattern`: regular expressions as they are written

Literal texts, character classes and counted repetitions, as regular expressions of Mathlib, with
what each of them matches. A lemma about decimal numerals and one about the last segment of a path
stand at the end: they decide which numerals a pattern of digits matches.
-/

set_option autoImplicit false

namespace Hf2l.Lib.Pattern

open RegularExpression

section
variable {α : Type}

/-- A literal text. -/
def text (s : List α) : RegularExpression α := (s.map char).prod

/-- A class of characters. -/
def oneOf (cs : List α) : RegularExpression α := (cs.map char).sum

/-- `(r|...)`. -/
def anyOf (rs : List (RegularExpression α)) : RegularExpression α := rs.sum

/-- `r+`. -/
def oneOrMore (r : RegularExpression α) : RegularExpression α := r * r.star

/-- `r` between zero and `n` times. -/
def atMost (r : RegularExpression α) : Nat → RegularExpression α
  | 0 => 1
  | n + 1 => 1 + r * atMost r n

/-- What holds of a list's characters is decided on the list, not on the finite type of
characters. -/
theorem forall_mem_of_all {p : α → Prop} [DecidablePred p] {l : List α}
    (h : l.all (fun x => p x) = true) :
    ∀ x ∈ l, p x :=
  fun x hx => of_decide_eq_true (List.all_eq_true.mp h x hx)

theorem mem_text (s l : List α) : l ∈ (text s).matches' ↔ l = s := by
  induction s generalizing l with
  | nil => exact Language.mem_one l
  | cons c s ih =>
    show l ∈ (char c * text s).matches' ↔ l = c :: s
    rw [matches'_mul, matches'_char, Language.mem_mul]
    constructor
    · rintro ⟨a, ha, b, hb, rfl⟩
      rw [(ih b).mp hb, show a = [c] from ha, List.singleton_append]
    · rintro rfl
      exact ⟨[c], rfl, s, (ih s).mpr rfl, rfl⟩

theorem mem_oneOf (cs l : List α) : l ∈ (oneOf cs).matches' ↔ ∃ c ∈ cs, l = [c] := by
  induction cs with
  | nil =>
    constructor
    · intro h
      exact absurd h (Language.notMem_zero l)
    · rintro ⟨c, hc, -⟩
      exact absurd hc List.not_mem_nil
  | cons d cs ih =>
    show l ∈ (char d + oneOf cs).matches' ↔ _
    rw [matches'_add, matches'_char, Language.mem_add, ih, List.exists_mem_cons_iff]
    rfl

theorem mem_star_oneOf (cs l : List α) : l ∈ (oneOf cs).star.matches' ↔ ∀ c ∈ l, c ∈ cs := by
  rw [matches'_star, Language.mem_kstar]
  constructor
  · rintro ⟨parts, rfl, hparts⟩ c hc
    obtain ⟨part, hpart, hc⟩ := List.mem_flatten.mp hc
    obtain ⟨d, hd, rfl⟩ := (mem_oneOf cs part).mp (hparts part hpart)
    rw [List.mem_singleton.mp hc]
    exact hd
  · intro h
    refine ⟨l.map fun c => [c], ?_, ?_⟩
    · rw [← List.flatMap_def]
      simp
    · intro part hpart
      obtain ⟨c, hc, rfl⟩ := List.mem_map.mp hpart
      exact (mem_oneOf cs [c]).mpr ⟨c, h c hc, rfl⟩

theorem mem_oneOrMore_oneOf (cs l : List α) :
    l ∈ (oneOrMore (oneOf cs)).matches' ↔ l ≠ [] ∧ ∀ c ∈ l, c ∈ cs := by
  unfold oneOrMore
  rw [matches'_mul, Language.mem_mul]
  constructor
  · rintro ⟨a, ha, b, hb, rfl⟩
    obtain ⟨c, hc, rfl⟩ := (mem_oneOf cs a).mp ha
    refine ⟨List.cons_ne_nil _ _, ?_⟩
    rw [List.singleton_append, List.forall_mem_cons]
    exact ⟨hc, (mem_star_oneOf cs b).mp hb⟩
  · rintro ⟨hne, hall⟩
    cases l with
    | nil => exact absurd rfl hne
    | cons c l =>
      rw [List.forall_mem_cons] at hall
      exact ⟨[c], (mem_oneOf cs [c]).mpr ⟨c, hall.1, rfl⟩, l, (mem_star_oneOf cs l).mpr hall.2, rfl⟩

theorem mem_atMost_oneOf (cs : List α) (n : Nat) (l : List α) :
    l ∈ (atMost (oneOf cs) n).matches' ↔ l.length ≤ n ∧ ∀ c ∈ l, c ∈ cs := by
  induction n generalizing l with
  | zero =>
    show l ∈ (1 : Language α) ↔ _
    rw [Language.mem_one, Nat.le_zero, List.length_eq_zero_iff]
    constructor
    · rintro rfl
      exact ⟨rfl, fun c hc => absurd hc List.not_mem_nil⟩
    · exact fun h => h.1
  | succ n ih =>
    show l ∈ (1 + oneOf cs * atMost (oneOf cs) n).matches' ↔ _
    rw [matches'_add, matches'_epsilon, matches'_mul, Language.mem_add, Language.mem_one,
      Language.mem_mul]
    constructor
    · rintro (rfl | ⟨a, ha, b, hb, rfl⟩)
      · exact ⟨Nat.zero_le _, fun c hc => absurd hc List.not_mem_nil⟩
      · obtain ⟨c, hc, rfl⟩ := (mem_oneOf cs a).mp ha
        obtain ⟨hlen, hall⟩ := (ih b).mp hb
        rw [List.singleton_append, List.forall_mem_cons, List.length_cons]
        exact ⟨by omega, hc, hall⟩
    · rintro ⟨hlen, hall⟩
      cases l with
      | nil => exact Or.inl rfl
      | cons c l =>
        rw [List.forall_mem_cons] at hall
        rw [List.length_cons] at hlen
        exact Or.inr ⟨[c], (mem_oneOf cs [c]).mpr ⟨c, hall.1, rfl⟩, l,
          (ih l).mpr ⟨by omega, hall.2⟩, rfl⟩

/-- What follows the last separator. -/
theorem last_segment {sep : α} [DecidableEq α] {a b c d : List α}
    (h : a ++ sep :: b = c ++ sep :: d) (hb : sep ∉ b) (hd : sep ∉ d) : b = d := by
  have htake : ∀ x y : List α, sep ∉ y →
      ((x ++ sep :: y).reverse.takeWhile fun z => z ≠ sep) = y.reverse := by
    intro x y hy
    rw [List.reverse_append, List.reverse_cons, List.append_assoc, List.takeWhile_append_of_pos]
    · simp
    · intro z hz
      have : z ≠ sep := fun he => hy (he ▸ List.mem_reverse.mp hz)
      simpa using this
  have := htake a b hb
  rw [h, htake c d hd] at this
  exact (List.reverse_injective this).symm

end

/-! ### Numerals -/

def digits : List Char := "0123456789".toList

def nonzeroDigits : List Char := "123456789".toList

theorem mem_digits_of_mem_toDigits {n : Nat} {c : Char} (h : c ∈ Nat.toDigits 10 n) :
    c ∈ digits := by
  induction n using Nat.strongRecOn with
  | ind n ih =>
    rw [Nat.toDigits_eq_if (by omega)] at h
    have hdigit : ∀ d < 10, Nat.digitChar d ∈ digits := by decide
    split at h
    · case isTrue hlt =>
      rw [List.mem_singleton.mp h]
      exact hdigit n hlt
    · case isFalse hge =>
      rcases List.mem_append.mp h with hmem | hmem
      · exact ih (n / 10) (by omega) hmem
      · rw [List.mem_singleton.mp hmem]
        exact hdigit (n % 10) (by omega)

/-- The numeral of a positive number does not start with zero. -/
theorem toDigits_head {n : Nat} (h : 0 < n) :
    ∃ c cs, Nat.toDigits 10 n = c :: cs ∧ c ∈ nonzeroDigits := by
  induction n using Nat.strongRecOn with
  | ind n ih =>
    rw [Nat.toDigits_eq_if (by omega)]
    have hdigit : ∀ d < 10, 0 < d → Nat.digitChar d ∈ nonzeroDigits := by decide
    split
    · case isTrue hlt => exact ⟨_, [], rfl, hdigit n hlt h⟩
    · case isFalse hge =>
      obtain ⟨c, cs, heq, hc⟩ := ih (n / 10) (by omega) (by omega)
      exact ⟨c, cs ++ [(n % 10).digitChar], by rw [heq, List.cons_append], hc⟩

/-- Numerals of a bounded number of digits without a leading zero. -/
theorem mem_numeral {k n : Nat} (h : 0 < n) :
    Nat.toDigits 10 n ∈ (oneOf nonzeroDigits * atMost (oneOf digits) k).matches' ↔
      n < 10 ^ (k + 1) := by
  rw [← Nat.length_toDigits_le_iff (by omega : 1 < 10) (Nat.succ_pos k), matches'_mul,
    Language.mem_mul]
  constructor
  · rintro ⟨a, ha, b, hb, heq⟩
    obtain ⟨c, -, rfl⟩ := (mem_oneOf _ a).mp ha
    rw [← heq, List.length_append, List.length_singleton]
    have := ((mem_atMost_oneOf _ k b).mp hb).1
    omega
  · intro hlen
    obtain ⟨c, cs, heq, hc⟩ := toDigits_head h
    rw [heq, List.length_cons] at hlen
    refine ⟨[c], (mem_oneOf _ _).mpr ⟨c, hc, rfl⟩, cs, (mem_atMost_oneOf _ k cs).mpr ⟨by omega, ?_⟩,
      heq.symm⟩
    intro d hd
    exact mem_digits_of_mem_toDigits (n := n) (heq ▸ List.mem_cons_of_mem c hd)

end Hf2l.Lib.Pattern
