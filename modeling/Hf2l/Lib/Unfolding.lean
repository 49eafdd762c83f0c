import Mathlib.Data.List.Basic

/-!
# `Hf2l.Lib.Unfolding`: paths of bounded length

A graph is given by the successors of each node. A bound on all paths from a node leaves no cycle
that the node can reach, and `Path.bounded` finds such a bound: something that holds of the node at
level `n + 1`, holds of the successors one level below, and never holds at level zero.
-/

set_option autoImplicit false

namespace Hf2l.Lib.Unfolding

section
variable {α : Type} (next : α → List α)

/-- A path of `n` steps. -/
inductive Path : Nat → α → α → Prop where
  | refl (v : α) : Path 0 v v
  | step {n : Nat} {v w x : α} : w ∈ next v → Path n w x → Path (n + 1) v x

/-- No path from `v` has more than `n` steps. -/
def Bounded (n : Nat) (v : α) : Prop := ∀ k w, Path next k v w → k ≤ n

/-- No node that `v` reaches is on a cycle. -/
def Acyclic (v : α) : Prop := ∀ m w k, Path next m v w → 0 < k → ¬ Path next k w w

variable {next}

theorem Path.trans {m n : Nat} {v w x : α} (h : Path next m v w) (h' : Path next n w x) :
    Path next (m + n) v x := by
  induction h with
  | refl v =>
    rw [Nat.zero_add]
    exact h'
  | @step m _ _ _ hmem _ ih =>
    rw [Nat.add_right_comm]
    exact .step hmem (ih h')

/-- What the successors inherit holds at the end of a path. -/
theorem Path.closed {n : Nat} {v w : α} {S : α → Prop} (h : Path next n v w)
    (hS : ∀ v w, S v → w ∈ next v → S w) (hv : S v) : S w := by
  induction h with
  | refl => exact hv
  | step hmem _ ih => exact ih (hS _ _ hv hmem)

/-- A cycle can be gone round as often as one likes. -/
theorem Path.repeat {k : Nat} {w : α} (h : Path next k w w) (j : Nat) : Path next (j * k) w w := by
  induction j with
  | zero =>
    rw [Nat.zero_mul]
    exact .refl w
  | succ j ih =>
    rw [Nat.succ_mul]
    exact ih.trans h

theorem Bounded.acyclic {n : Nat} {v : α} (h : Bounded next n v) : Acyclic next v := by
  intro m w k hpath hk hcycle
  have hlong := h _ w (hpath.trans (hcycle.repeat (n + 1)))
  have hmul : n + 1 ≤ (n + 1) * k := Nat.le_mul_of_pos_right _ hk
  omega

/-- **A bound from levels.** -/
theorem Path.bounded (level : Nat → α → Prop) (hzero : ∀ v, ¬ level 0 v) {n : Nat} {v : α}
    (hv : level (n + 1) v)
    (hstep : ∀ j k w x, Path next k v w → level (j + 1) w → x ∈ next w → level j x) :
    Bounded next n v := by
  -- Along a path, the level falls by one a step.
  have hfalls : ∀ k w x j, Path next j v w → Path next k w x → ∀ l, level (l + 1) w → k ≤ l := by
    intro k w x j hto hpath
    induction hpath generalizing j with
    | refl => exact fun l _ => Nat.zero_le l
    | @step k w y x hmem _ ih =>
      intro l hlevel
      have hy := hstep l j w y hto hlevel hmem
      cases l with
      | zero => exact absurd hy (hzero y)
      | succ l => exact Nat.succ_le_succ (ih (j + 1) (hto.trans (.step hmem (.refl y))) l hy)
  intro k w hpath
  exact hfalls k v w 0 (.refl v) hpath n hv

end

end Hf2l.Lib.Unfolding
