import Mathlib.Data.Set.Finite.Basic
import Mathlib.Data.List.Nodup
import Mathlib.Logic.Relation
import Mathlib.Order.WellFounded

/-!
# `Hf2l.Lib.Descent`: parents given by a partial function

Each element has at most one parent. `Line` is a whole line of descent, the latest first, whose
last element has no parent; it has no repetition, because the parents of an element are
determined. `Acyclic` says that nobody descends from themselves: `acyclic_redirect` says exactly
when a new parent keeps it, and `exists_childless` finds in a finite set an element without
children there.
-/

set_option autoImplicit false

namespace Hf2l.Lib.Descent

variable {α : Type} {f g : α → Option α}

/-! ### Lines -/

/-- Each element is followed by its parent, and the last has none. -/
def Line (f : α → Option α) : List α → Prop
  | [] => True
  | [a] => f a = none
  | a :: b :: rest => f a = some b ∧ Line f (b :: rest)

namespace Line

variable {a : α} {l m : List α}

theorem tail (h : Line f (a :: l)) : Line f l := by
  cases l with
  | nil => trivial
  | cons b l => exact h.2

/-- The line of an element is determined. -/
theorem unique (h : Line f (a :: l)) (h' : Line f (a :: m)) : l = m := by
  induction l generalizing a m with
  | nil =>
    cases m with
    | nil => rfl
    | cons c m =>
      have hnone : f a = none := h
      exact absurd h'.1 (by simp [hnone])
  | cons b l ih =>
    cases m with
    | nil =>
      have hnone : f a = none := h'
      exact absurd h.1 (by simp [hnone])
    | cons c m =>
      have hbc : b = c := Option.some.inj (h.1.symm.trans h'.1)
      subst hbc
      rw [ih h.2 h'.2]

theorem of_append (h : Line f (l ++ m)) : Line f m := by
  induction l with
  | nil => exact h
  | cons a l ih => exact ih h.tail

/-- **A line of descent has no repetition.** -/
theorem nodup (h : Line f l) : l.Nodup := by
  induction l with
  | nil => exact List.nodup_nil
  | cons a l ih =>
    refine List.nodup_cons.mpr ⟨fun ha => ?_, ih h.tail⟩
    -- The line from the second occurrence would be as long as the whole.
    obtain ⟨s, t, rfl⟩ := List.append_of_mem ha
    have hlen := congrArg List.length (h.unique h.tail.of_append)
    simp at hlen
    omega

end Line

/-! ### Cycles -/

def Parent (f : α → Option α) (a b : α) : Prop := f a = some b

/-- Nobody descends from themselves. -/
def Acyclic (f : α → Option α) : Prop := ∀ a, ¬ Relation.TransGen (Parent f) a a

/-- Fewer parents make no cycle. -/
theorem Acyclic.of_le (h : Acyclic f) (hle : ∀ a b, g a = some b → f a = some b) : Acyclic g :=
  fun a ha => h a (Relation.TransGen.mono hle a a ha)

section Redirect

variable [DecidableEq α] {a b : α}

/-- Up to `a` the parents are the same. -/
theorem reaches_redirect {x : α} :
    Relation.ReflTransGen (Parent (Function.update f a (some b))) x a ↔
      Relation.ReflTransGen (Parent f) x a := by
  constructor <;>
  · intro h
    induction h using Relation.ReflTransGen.head_induction_on with
    | refl => exact .refl
    | @head y z hyz _ ih =>
      by_cases hy : y = a
      · subst hy
        exact .refl
      · refine ih.head ?_
        unfold Parent at hyz ⊢
        rwa [Function.update_of_ne hy] at *

/-- A descent with the new parent is one without it, or it passes through `a`. -/
theorem transGen_redirect {x y : α}
    (h : Relation.TransGen (Parent (Function.update f a (some b))) x y) :
    Relation.TransGen (Parent f) x y ∨
      Relation.ReflTransGen (Parent (Function.update f a (some b))) x a ∧
        Relation.ReflTransGen (Parent (Function.update f a (some b))) b y := by
  have hstep : ∀ {u v : α}, Parent (Function.update f a (some b)) u v → Parent f u v ∨
      u = a ∧ v = b := by
    intro u v huv
    by_cases hu : u = a
    · subst hu
      exact Or.inr ⟨rfl, by simpa [Parent] using huv.symm⟩
    · exact Or.inl (by simpa [Parent, Function.update_of_ne hu] using huv)
  induction h with
  | single h =>
    rcases hstep h with h | ⟨rfl, rfl⟩
    · exact Or.inl (.single h)
    · exact Or.inr ⟨.refl, .refl⟩
  | tail hxy hyz ih =>
    rcases hstep hyz with h | ⟨rfl, rfl⟩
    · rcases ih with ih | ⟨h1, h2⟩
      · exact Or.inl (ih.tail h)
      · exact Or.inr ⟨h1, h2.tail hyz⟩
    · exact Or.inr ⟨hxy.to_reflTransGen, .refl⟩

/-- **A new parent makes a cycle exactly when it descends from its child already.** -/
theorem acyclic_redirect (h : Acyclic f) :
    Acyclic (Function.update f a (some b)) ↔ ¬ Relation.ReflTransGen (Parent f) b a := by
  constructor
  · intro hg hba
    exact hg a (Relation.TransGen.head' (by simp [Parent]) (reaches_redirect.mpr hba))
  · intro hba x hx
    rcases transGen_redirect hx with hx | ⟨h1, h2⟩
    · exact h x hx
    · exact hba (reaches_redirect.mp (h2.trans h1))

/-- To take a parent away makes no cycle. -/
theorem Acyclic.orphan (h : Acyclic f) : Acyclic (Function.update f a none) := by
  refine h.of_le fun x y hxy => ?_
  by_cases hx : x = a
  · subst hx
    simp at hxy
  · rwa [Function.update_of_ne hx] at hxy

end Redirect

/-- **In a finite set somebody has no child.** -/
theorem exists_childless {s : List α} (h : ∀ a ∈ s, ¬ Relation.TransGen (Parent f) a a)
    (hs : s ≠ []) :
    ∃ a ∈ s, ∀ b ∈ s, f b ≠ some a := by
  let r : {x // x ∈ s} → {x // x ∈ s} → Prop := fun x y => Relation.TransGen (Parent f) x.1 y.1
  have : IsTrans {x // x ∈ s} r := ⟨fun _ _ _ hxy hyz => hxy.trans hyz⟩
  have : Std.Irrefl r := ⟨fun x => h x.1 x.2⟩
  have : Finite {x // x ∈ s} := List.finite_toSet s
  have hwf : WellFounded r := Finite.wellFounded_of_trans_of_irrefl r
  obtain ⟨x, hx⟩ := List.exists_mem_of_ne_nil s hs
  obtain ⟨m, -, hm⟩ := hwf.has_min Set.univ ⟨⟨x, hx⟩, trivial⟩
  exact ⟨m.1, m.2, fun b hb hbm => hm ⟨b, hb⟩ trivial (.single hbm)⟩

end Hf2l.Lib.Descent
