import Mathlib.Data.Int.Basic
import Mathlib.Tactic.Ring

/-!
# `Hf2l.Lib.Word`: arithmetic of 64-bit signed integers

An `int64` is an `Int` in range, and an operation wraps around. `Tracked` computes with wrapping
operations and keeps whether every one of them so far had its exact result in range, so that a
program can be run as it is and be shown never to overflow.
-/

set_option autoImplicit false

namespace Hf2l.Lib.Word

/-- The range of `int64`. -/
def Fits (x : Int) : Prop := -9223372036854775808 ≤ x ∧ x ≤ 9223372036854775807

instance (x : Int) : Decidable (Fits x) := inferInstanceAs (Decidable (_ ∧ _))

/-- Two's complement. -/
def wrap (x : Int) : Int := (x + 9223372036854775808) % 18446744073709551616 - 9223372036854775808

theorem wrap_eq {x : Int} (h : Fits x) : wrap x = x := by
  unfold Fits at h
  unfold wrap
  omega

/-- The largest `int64`. -/
def maxInt64 : Int := 9223372036854775807

/-- A value, and whether no operation on the way to it has overflowed. -/
structure Tracked (α : Type) where
  value : α
  exact : Bool
deriving DecidableEq, Repr

instance : Monad Tracked where
  pure a := ⟨a, true⟩
  bind x f := ⟨(f x.value).value, x.exact && (f x.value).exact⟩

/-- The result of an operation on words. -/
def tracked (x : Int) : Tracked Int := ⟨wrap x, decide (Fits x)⟩

def add (x y : Int) : Tracked Int := tracked (x + y)

def sub (x y : Int) : Tracked Int := tracked (x - y)

def mul (x y : Int) : Tracked Int := tracked (x * y)

/-- Division truncates. The divisor is not zero. -/
def div (x y : Int) : Tracked Int := tracked (Int.tdiv x y)

section
variable {α β : Type}

variable {x y : Int}

theorem tracked_eq (h : Fits x) : tracked x = pure x := by
  unfold tracked
  rw [wrap_eq h, decide_eq_true h]
  rfl

@[simp] theorem pure_bind' (a : α) (f : α → Tracked β) : (pure a >>= f) = f a := by
  show Tracked.mk (f a).value (true && (f a).exact) = f a
  rw [Bool.true_and]

theorem add_eq (h : Fits (x + y)) : add x y = pure (x + y) := tracked_eq h

theorem sub_eq (h : Fits (x - y)) : sub x y = pure (x - y) := tracked_eq h

theorem mul_eq (h : Fits (x * y)) : mul x y = pure (x * y) := tracked_eq h

/-- Where nothing is negative, truncation is the floor. -/
theorem div_eq (hx : 0 ≤ x) (hfits : Fits x) (hy : 0 < y) : div x y = pure (x / y) := by
  have hfloor : Int.tdiv x y = x / y := Int.tdiv_eq_ediv_of_nonneg hx
  have hle : x / y ≤ x := Int.ediv_le_self y hx
  have hnonneg : 0 ≤ x / y := Int.ediv_nonneg hx (le_of_lt hy)
  have hin : Fits (x / y) := by
    unfold Fits at hfits ⊢
    omega
  unfold div
  rw [hfloor]
  exact tracked_eq hin

end

end Hf2l.Lib.Word
