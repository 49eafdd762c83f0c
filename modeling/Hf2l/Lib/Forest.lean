import Hf2l.Lib.Descent
import Hf2l.Lib.Table

/-!
# `Hf2l.Lib.Forest`: tables of nodes with parents

A table of nodes, each with the node it hangs on. Nodes are added, hung elsewhere, and removed
when nothing hangs on them (`Step`). Only a node that is hung elsewhere can close a cycle, and
`Step.acyclic_iff` says exactly when it does.

`Removable` is a sequence of removals. A set of nodes can be removed in some order exactly when
no node outside it hangs on one inside it and none of its nodes is on a cycle.
-/

set_option autoImplicit false

namespace Hf2l.Lib.Forest

open Lib.Descent
open Relation (TransGen ReflTransGen)

variable {α : Type} [DecidableEq α]

/-- The parent of a node, if it is there and has one. -/
def parent (t : List (α × Option α)) (a : α) : Option α := (Table.get Prod.fst a t).bind Prod.snd

/-- Nodes are there once and their parents are there. -/
structure Grounded (t : List (α × Option α)) : Prop where
  keyed : Table.Keyed Prod.fst t
  parents : ∀ e ∈ t, ∀ b, e.2 = some b → ∃ e' ∈ t, e'.1 = b

/-- One write of the table. The index names a node that is hung elsewhere. -/
inductive Step (t : List (α × Option α)) : Option α → List (α × Option α) → Prop
  | stay : Step t none t
  | add (a : α) (b : Option α) (hn : ∀ e ∈ t, e.1 ≠ a) (hb : ∀ x, b = some x → ∃ e ∈ t, e.1 = x) :
    Step t none (t ++ [(a, b)])
  | hang (a : α) (b : Option α) (ha : ∃ e ∈ t, e.1 = a) (hb : ∀ x, b = some x → ∃ e ∈ t, e.1 = x) :
    Step t (some a) (Table.put Prod.fst (a, b) t)
  | remove (a : α) (h : ∀ e ∈ t, e.2 ≠ some a) : Step t none (t.filter fun e => decide (e.1 ≠ a))

section Parents

variable {t : List (α × Option α)} {a : α}

theorem parent_mem {b : α} (h : parent t a = some b) : (a, some b) ∈ t := by
  obtain ⟨e, he, hb⟩ := Option.bind_eq_some_iff.mp h
  obtain ⟨hmem, rfl⟩ := Table.get_mem he
  rw [← hb]
  exact hmem

theorem Grounded.parent_eq (h : Grounded t) {e : α × Option α} (he : e ∈ t) :
    parent t e.1 = e.2 := by
  unfold parent
  rw [h.keyed.get_eq he]
  rfl

theorem parent_add {b : Option α} (hn : ∀ e ∈ t, e.1 ≠ a) :
    parent (t ++ [(a, b)]) = Function.update (parent t) a b := by
  funext x
  unfold parent
  rw [Table.get_concat hn, Function.update_apply]
  by_cases h : x = a
  · rw [if_pos h, if_pos h]
    rfl
  · rw [if_neg h, if_neg h]

theorem Grounded.parent_hang (h : Grounded t) {b : Option α} (ha : ∃ e ∈ t, e.1 = a) :
    parent (Table.put Prod.fst (a, b) t) = Function.update (parent t) a b := by
  obtain ⟨e, he, rfl⟩ := ha
  funext x
  unfold parent
  rw [Table.get_put h.keyed he (e.1, b) rfl, Function.update_apply]
  by_cases hx : x = e.1
  · rw [if_pos hx, if_pos hx]
    rfl
  · rw [if_neg hx, if_neg hx]

theorem parent_remove :
    parent (t.filter fun e => decide (e.1 ≠ a)) = Function.update (parent t) a none := by
  funext x
  unfold parent
  rw [Table.get_without, Function.update_apply]
  by_cases h : x = a
  · rw [if_pos h, if_pos h]
    rfl
  · rw [if_neg h, if_neg h]

end Parents

namespace Step

variable {t t' : List (α × Option α)} {k : Option α}

theorem grounded (h : Grounded t) (hs : Step t k t') : Grounded t' := by
  cases hs with
  | stay => exact h
  | add a b hn hb =>
    refine ⟨h.keyed.concat hn, fun e he x hx => ?_⟩
    have hold : ∃ e' ∈ t, e'.1 = x := by
      rcases Table.mem_concat.mp he with he | rfl
      · exact h.parents e he x hx
      · exact hb x hx
    obtain ⟨e', he', rfl⟩ := hold
    exact ⟨e', List.mem_append_left _ he', rfl⟩
  | hang a b ha hb =>
    refine ⟨h.keyed.put _, fun e he x hx => ?_⟩
    have hold : ∃ e' ∈ t, e'.1 = x := by
      rcases Table.of_mem_put he with ⟨he, -⟩ | rfl
      · exact h.parents e he x hx
      · exact hb x hx
    obtain ⟨e', he', rfl⟩ := hold
    obtain ⟨e₀, he₀, rfl⟩ := ha
    by_cases heq : e'.1 = e₀.1
    · exact ⟨(e₀.1, b), Table.mem_put_self he₀ rfl, heq.symm⟩
    · exact ⟨e', Table.mem_put_of_ne he' heq, rfl⟩
  | remove a hfree =>
    refine ⟨h.keyed.filter _, fun e he x hx => ?_⟩
    obtain ⟨he, -⟩ := List.mem_filter.mp he
    obtain ⟨e', he', rfl⟩ := h.parents e he x hx
    exact ⟨e', List.mem_filter.mpr ⟨he', decide_eq_true fun heq => hfree e he (heq ▸ hx)⟩, rfl⟩

/-- **Only a node that is hung on one of its own descendants closes a cycle.** -/
theorem acyclic_iff (hg : Grounded t) (hs : Step t k t') (h : Acyclic (parent t)) :
    Acyclic (parent t') ↔ ∀ a, k = some a → ∀ b, parent t' a = some b →
    ¬ ReflTransGen (Parent (parent t)) b a := by
  cases hs with
  | stay => exact ⟨fun _ _ hk => absurd hk (by simp), fun _ => h⟩
  | add a b hn hb =>
    refine ⟨fun _ _ hk => absurd hk (by simp), fun _ => ?_⟩
    rw [parent_add hn]
    cases b with
    | none => exact h.orphan
    | some x =>
      refine (acyclic_redirect h).mpr fun hreach => ?_
      -- Nothing hangs on a node that was not there.
      rcases Relation.ReflTransGen.cases_tail hreach with rfl | ⟨y, -, hy⟩
      · obtain ⟨e, he, heq⟩ := hb _ rfl
        exact hn e he heq
      · obtain ⟨e, he, heq⟩ := hg.parents _ (parent_mem hy) a rfl
        exact hn e he heq
  | hang a b ha hb =>
    rw [hg.parent_hang ha]
    cases b with
    | none =>
      refine ⟨fun _ x hk y hy => ?_, fun _ => h.orphan⟩
      obtain rfl := Option.some.inj hk
      simp at hy
    | some x =>
      rw [acyclic_redirect h]
      constructor
      · intro hreach y hk z hz
        obtain rfl := Option.some.inj hk
        rw [Function.update_self, Option.some.injEq] at hz
        exact hz ▸ hreach
      · intro hall
        exact hall a rfl x (Function.update_self ..)
  | remove a _ =>
    refine ⟨fun _ _ hk => absurd hk (by simp), fun _ => ?_⟩
    rw [parent_remove]
    exact h.orphan

end Step

/-! ### Removals -/

/-- The nodes can be removed one after another. -/
def Removable : List (α × Option α) → List α → Prop
  | _, [] => True
  | t, a :: rest => (∀ e ∈ t, e.2 ≠ some a) ∧ Removable (t.filter fun e => decide (e.1 ≠ a)) rest

/-- No node outside the set hangs on one inside, and none inside is on a cycle. -/
structure Detached (t : List (α × Option α)) (s : List α) : Prop where
  closed : ∀ e ∈ t, ∀ b, e.2 = some b → b ∈ s → e.1 ∈ s
  acyclic : ∀ a ∈ s, ¬ TransGen (Parent (parent t)) a a

variable {t : List (α × Option α)}

/-- A descent that never reaches `a` as a parent does not need it. -/
theorem transGen_remove {a x y : α} (hfree : ∀ e ∈ t, e.2 ≠ some a) (hx : x ≠ a)
    (h : TransGen (Parent (parent t)) x y) :
    TransGen (Parent (parent (t.filter fun e => decide (e.1 ≠ a)))) x y := by
  have hstep : ∀ {u v : α}, u ≠ a → Parent (parent t) u v →
      Parent (parent (t.filter fun e => decide (e.1 ≠ a))) u v := by
    intro u v hu huv
    unfold Parent
    rw [parent_remove, Function.update_of_ne hu]
    exact huv
  have hne : ∀ {u v : α}, Parent (parent t) u v → v ≠ a := by
    rintro u v huv rfl
    exact hfree _ (parent_mem huv) rfl
  induction h with
  | single h => exact .single (hstep hx h)
  | tail hxy hyz ih =>
    refine ih.tail (hstep ?_ hyz)
    cases hxy with
    | single h | tail _ h => exact hne h

theorem Removable.detached {order : List α} (h : Removable t order) : Detached t order := by
  induction order generalizing t with
  | nil =>
    exact ⟨fun _ _ _ _ hb => absurd hb List.not_mem_nil, fun _ ha => absurd ha List.not_mem_nil⟩
  | cons a rest ih =>
    obtain ⟨hfree, hrest⟩ := h
    have hd := ih hrest
    refine ⟨fun e he b hb hmem => ?_, fun x hx hcycle => ?_⟩
    · rcases List.mem_cons.mp hmem with rfl | hmem
      · exact absurd hb (hfree e he)
      · by_cases hea : e.1 = a
        · exact hea ▸ List.mem_cons_self
        · exact List.mem_cons_of_mem a
            (hd.closed e (List.mem_filter.mpr ⟨he, decide_eq_true hea⟩) b hb hmem)
    · by_cases hxa : x = a
      · -- Somebody on the cycle would hang on `a`.
        subst hxa
        obtain ⟨y, -, hy⟩ := Relation.TransGen.tail'_iff.mp hcycle
        exact hfree _ (parent_mem hy) rfl
      · have hmem : x ∈ rest := (List.mem_cons.mp hx).resolve_left hxa
        exact hd.acyclic x hmem (transGen_remove hfree hxa hcycle)

/-- A childless node is removed first, then the others. -/
theorem Detached.removable {s : List α} (hnodup : s.Nodup) (hg : Grounded t) (h : Detached t s) :
    ∃ order, order.Perm s ∧ Removable t order := by
  induction hn : s.length generalizing s t with
  | zero => exact ⟨[], List.length_eq_zero_iff.mp hn ▸ .nil, trivial⟩
  | succ n ih =>
    have hne : s ≠ [] := by
      rintro rfl
      simp at hn
    obtain ⟨a, ha, hchild⟩ := exists_childless h.acyclic hne
    have hfree : ∀ e ∈ t, e.2 ≠ some a := by
      intro e he hb
      exact hchild e.1 (h.closed e he a hb ha) ((hg.parent_eq he).trans hb)
    have hrest : Detached (t.filter fun e => decide (e.1 ≠ a)) (s.erase a) := by
      refine ⟨fun e he b hb hmem => ?_, fun x hx hcycle => ?_⟩
      · obtain ⟨he, hea⟩ := List.mem_filter.mp he
        exact (List.mem_erase_of_ne (of_decide_eq_true hea)).mpr
          (h.closed e he b hb (List.mem_of_mem_erase hmem))
      · refine h.acyclic x (List.mem_of_mem_erase hx)
          (Relation.TransGen.mono (fun u v huv => ?_) x x hcycle)
        unfold Parent at huv ⊢
        rw [parent_remove] at huv
        by_cases hu : u = a
        · subst hu
          simp at huv
        · rwa [Function.update_of_ne hu] at huv
    have hlen : (s.erase a).length = n := by
      rw [List.length_erase_of_mem ha, hn]
      rfl
    obtain ⟨order, hperm, horder⟩ :=
      ih (hnodup.erase a) (Step.grounded hg (.remove a hfree)) hrest hlen
    exact ⟨a :: order, (hperm.cons a).trans (List.perm_cons_erase ha).symm, hfree, horder⟩

/-- **What can be removed in some order.** -/
theorem removable_iff {s : List α} (hnodup : s.Nodup) (hg : Grounded t) :
    (∃ order, order.Perm s ∧ Removable t order) ↔ Detached t s := by
  constructor
  · rintro ⟨order, hperm, horder⟩
    have hd := horder.detached
    exact ⟨fun e he b hb hmem => hperm.mem_iff.mp (hd.closed e he b hb (hperm.mem_iff.mpr hmem)),
      fun a ha => hd.acyclic a (hperm.mem_iff.mpr ha)⟩
  · exact fun h => h.removable hnodup hg

end Hf2l.Lib.Forest
