import Mathlib.Data.List.Sort
import Mathlib.Data.String.Basic

/-!
# `Hf2l.Lib.JsonValue`: JSON values

An object is a list of fields whose order has no meaning. `same` compares two values without
regard to it, and `norm` puts the fields of every object in the order of their keys. On values
whose objects have distinct keys the two agree (`same_iff_norm`): values are the same iff they
have one normal form.
-/

set_option autoImplicit false

namespace Hf2l.Lib.Json

/-- A JSON value. A number with a fraction or an exponent is kept as it is spelled. -/
inductive Value where
  | null
  | bool (b : Bool)
  | int (n : Int)
  | real (literal : String)
  | str (s : String)
  | arr (items : List Value)
  | obj (fields : List (String × Value))

namespace Value

/-- No floats, and the keys of every object are distinct. -/
inductive Plain : Value → Prop where
  | null : Plain .null
  | bool (b : Bool) : Plain (.bool b)
  | int (n : Int) : Plain (.int n)
  | str (s : String) : Plain (.str s)
  | arr {items : List Value} : (∀ v ∈ items, Plain v) → Plain (.arr items)
  | obj {fields : List (String × Value)} :
    (fields.map (·.1)).Nodup → (∀ f ∈ fields, Plain f.2) → Plain (.obj fields)

/-- The keys of every object are distinct. -/
inductive Distinct : Value → Prop where
  | null : Distinct .null
  | bool (b : Bool) : Distinct (.bool b)
  | int (n : Int) : Distinct (.int n)
  | real (literal : String) : Distinct (.real literal)
  | str (s : String) : Distinct (.str s)
  | arr {items : List Value} : (∀ v ∈ items, Distinct v) → Distinct (.arr items)
  | obj {fields : List (String × Value)} :
    (fields.map (·.1)).Nodup → (∀ f ∈ fields, Distinct f.2) → Distinct (.obj fields)

mutual

/-- How deep a value is nested: the items of an array are one level below it. -/
def nesting : Value → Nat
  | .arr items => nestingItems items
  | .obj fields => nestingFields fields
  | _ => 0

def nestingItems : List Value → Nat
  | [] => 0
  | v :: items => max (nesting v + 1) (nestingItems items)

def nestingFields : List (String × Value) → Nat
  | [] => 0
  | (_, v) :: fields => max (nesting v + 1) (nestingFields fields)

end

mutual

/-- Equality of JSON values. -/
def same : Value → Value → Bool
  | .null, .null => true
  | .bool a, .bool b => a == b
  | .int m, .int n => m == n
  | .real a, .real b => a == b
  | .str a, .str b => a == b
  | .arr xs, .arr ys => sameItems xs ys
  | .obj xs, .obj ys => xs.length == ys.length && sameFields xs ys
  | _, _ => false

def sameItems : List Value → List Value → Bool
  | [], [] => true
  | x :: xs, y :: ys => same x y && sameItems xs ys
  | _, _ => false

/-- Every field of the first object is in the second, with the same value. -/
def sameFields : List (String × Value) → List (String × Value) → Bool
  | [], _ => true
  | (k, v) :: xs, ys =>
    (match ys.lookup k with
      | some w => same v w
      | none => false) && sameFields xs ys

end

/-- Fields in the order of their keys. -/
def sortFields {α : Type} (fields : List (String × α)) : List (String × α) :=
  fields.insertionSort fun f g => f.1 ≤ g.1

mutual

/-- The value with the fields of every object in the order of their keys. -/
def norm : Value → Value
  | .arr items => .arr (normItems items)
  | .obj fields => .obj (sortFields (normFields fields))
  | v => v

def normItems : List Value → List Value
  | [] => []
  | v :: items => norm v :: normItems items

def normFields : List (String × Value) → List (String × Value)
  | [] => []
  | (k, v) :: fields => (k, norm v) :: normFields fields

end

/-! ### Fields in order -/

section
variable {α β : Type}

theorem sortFields_perm (fields : List (String × α)) : (sortFields fields).Perm fields :=
  List.perm_insertionSort _ fields

theorem sortFields_pairwise (fields : List (String × α)) :
    (sortFields fields).Pairwise fun f g => f.1 ≤ g.1 := by
  have : IsTrans (String × α) fun f g => f.1 ≤ g.1 := ⟨fun _ _ _ => le_trans⟩
  have : Std.Total (α := String × α) fun f g => f.1 ≤ g.1 := ⟨fun f g => le_total f.1 g.1⟩
  exact List.pairwise_insertionSort _ fields

theorem map_sortFields (f : α → β) (fields : List (String × α)) :
    (sortFields fields).map (fun x => (x.1, f x.2)) =
      sortFields (fields.map fun x => (x.1, f x.2)) :=
  List.map_insertionSort _ _ _ _ fun _ _ _ _ => Iff.rfl

variable {fields : List (String × α)}

/-- With distinct keys, the fields in order depend only on which fields there are. -/
theorem sortFields_eq_iff {others : List (String × α)} (h : (fields.map (·.1)).Nodup) :
    sortFields fields = sortFields others ↔ fields.Perm others := by
  constructor
  · intro he
    exact (sortFields_perm fields).symm.trans (he ▸ sortFields_perm others)
  · intro hperm
    have hsorted := ((sortFields_perm fields).trans hperm).trans (sortFields_perm others).symm
    refine hsorted.eq_of_pairwise (fun f g hf hg h₁ h₂ => ?_) (sortFields_pairwise _)
      (sortFields_pairwise _)
    have hf' := (sortFields_perm fields).subset hf
    have hg' := hperm.symm.subset ((sortFields_perm others).subset hg)
    exact List.inj_on_of_nodup_map h hf' hg' (le_antisymm h₁ h₂)

theorem lookup_of_mem (h : (fields.map (·.1)).Nodup) {k : String} {v : α}
    (hmem : (k, v) ∈ fields) : fields.lookup k = some v := by
  induction fields with
  | nil => simp at hmem
  | cons f fields ih =>
    obtain ⟨k', v'⟩ := f
    obtain ⟨hnew, hrest⟩ := List.nodup_cons.mp h
    rcases List.mem_cons.mp hmem with he | hmem
    · cases he
      simp
    · have hne : ¬ k = k' := fun e => hnew (e ▸ List.mem_map_of_mem (f := (·.1)) hmem)
      rw [List.lookup_cons, beq_false_of_ne hne]
      exact ih hrest hmem

theorem mem_of_lookup {κ : Type*} [BEq κ] [LawfulBEq κ] {table : List (κ × α)} {k : κ} {v : α}
    (h : table.lookup k = some v) : (k, v) ∈ table := by
  obtain ⟨l₁, l₂, rfl, -⟩ := List.lookup_eq_some_iff.mp h
  exact List.mem_append_right _ List.mem_cons_self

/-- Two objects have the same fields, up to what `key` says of the values, iff they have as many and
every field of the first is in the second. -/
theorem perm_map_iff (key : α → β) (r : α → α → Prop) {xs ys : List (String × α)}
    (hxs : (xs.map (·.1)).Nodup) (hys : (ys.map (·.1)).Nodup)
    (hr : ∀ f ∈ xs, ∀ g ∈ ys, (r f.2 g.2 ↔ key f.2 = key g.2)) :
    (xs.map fun f => (f.1, key f.2)).Perm (ys.map fun f => (f.1, key f.2)) ↔
      xs.length = ys.length ∧ ∀ f ∈ xs, ∃ w, ys.lookup f.1 = some w ∧ r f.2 w := by
  constructor
  · intro hperm
    refine ⟨by simpa using hperm.length_eq, fun f hf => ?_⟩
    obtain ⟨g, hg, he⟩ :=
      List.mem_map.mp (hperm.subset (List.mem_map_of_mem (f := fun f => (f.1, key f.2)) hf))
    rw [Prod.mk.injEq] at he
    refine ⟨g.2, ?_, (hr f hf g hg).mpr he.2.symm⟩
    rw [← he.1]
    exact lookup_of_mem hys hg
  · -- Every field is in the other object, and there are as many.
    rintro ⟨hlength, hin⟩
    have hsubset : (xs.map fun f => (f.1, key f.2)) ⊆ ys.map fun f => (f.1, key f.2) := by
      intro g hg
      obtain ⟨f, hf, rfl⟩ := List.mem_map.mp hg
      obtain ⟨w, hw, hrel⟩ := hin f hf
      have hmem := mem_of_lookup hw
      exact List.mem_map.mpr ⟨(f.1, w), hmem, by rw [(hr f hf _ hmem).mp hrel]⟩
    have hnodup : (xs.map fun f => (f.1, key f.2)).Nodup := by
      apply List.Nodup.of_map (·.1)
      rw [List.map_map]
      exact hxs
    exact (List.subperm_of_subset hnodup hsubset).perm_of_length_le (by simp [hlength])

end

/-! ### Normal forms -/

theorem normItems_eq (items : List Value) : normItems items = items.map norm := by
  induction items with
  | nil => rfl
  | cons v items ih => rw [normItems, ih, List.map_cons]

theorem normFields_eq (fields : List (String × Value)) :
    normFields fields = fields.map fun f => (f.1, norm f.2) := by
  induction fields with
  | nil => rfl
  | cons f fields ih => rw [normFields, ih, List.map_cons]

theorem norm_arr (items : List Value) : norm (.arr items) = .arr (items.map norm) := by
  rw [norm, normItems_eq]

theorem norm_obj (fields : List (String × Value)) :
    norm (.obj fields) = .obj (sortFields (fields.map fun f => (f.1, norm f.2))) := by
  rw [norm, normFields_eq]

theorem keys_normFields (fields : List (String × Value)) :
    (fields.map fun f => (f.1, norm f.2)).map (·.1) = fields.map (·.1) := by
  rw [List.map_map]
  rfl

theorem Plain.norm {v : Value} (h : Plain v) : Plain v.norm := by
  induction h with
  | null => exact .null
  | bool b => exact .bool b
  | int n => exact .int n
  | str s => exact .str s
  | arr _ ih =>
    rw [norm_arr]
    refine .arr fun w hw => ?_
    obtain ⟨v, hv, rfl⟩ := List.mem_map.mp hw
    exact ih v hv
  | @obj fields hkeys _ ih =>
    rw [norm_obj]
    refine .obj ?_ fun f hf => ?_
    · rw [((sortFields_perm _).map (·.1)).nodup_iff, keys_normFields]
      exact hkeys
    · obtain ⟨g, hg, rfl⟩ := List.mem_map.mp ((sortFields_perm _).subset hf)
      exact ih g hg

theorem norm_norm {v : Value} (h : Plain v) : v.norm.norm = v.norm := by
  induction h with
  | null | bool b | int n | str s => rfl
  | arr _ ih =>
    rw [norm_arr, norm_arr, List.map_map]
    exact congrArg Value.arr (List.map_congr_left ih)
  | @obj fields hkeys _ ih =>
    rw [norm_obj, norm_obj, map_sortFields, List.map_map]
    have hmap : (fields.map fun f => (f.1, norm (norm f.2))) = fields.map fun f =>
        (f.1, norm f.2) :=
      List.map_congr_left fun f hf => by rw [ih f hf]
    show Value.obj (sortFields (sortFields (fields.map fun f => (f.1, norm (norm f.2))))) = _
    rw [hmap]
    refine congrArg Value.obj ((sortFields_eq_iff ?_).mpr (sortFields_perm _))
    rw [((sortFields_perm _).map (·.1)).nodup_iff, keys_normFields]
    exact hkeys

theorem sameItems_iff {xs : List Value}
    (ih : ∀ v ∈ xs, ∀ w, Plain w → (same v w = true ↔ norm v = norm w)) {ys : List Value}
    (hys : ∀ w ∈ ys, Plain w) : sameItems xs ys = true ↔ xs.map norm = ys.map norm := by
  induction xs generalizing ys with
  | nil => cases ys <;> simp [sameItems]
  | cons x xs ihxs =>
    cases ys with
    | nil => simp [sameItems]
    | cons y ys =>
      have hhead := ih x List.mem_cons_self y (hys y List.mem_cons_self)
      have htail := ihxs (fun v hv => ih v (List.mem_cons_of_mem _ hv)) fun w hw =>
        hys w (List.mem_cons_of_mem _ hw)
      simp [sameItems, hhead, htail]

theorem sameFields_iff {xs ys : List (String × Value)} :
    sameFields xs ys = true ↔ ∀ f ∈ xs, ∃ w, ys.lookup f.1 = some w ∧ same f.2 w = true := by
  induction xs with
  | nil => simp [sameFields]
  | cons f xs ih =>
    obtain ⟨k, v⟩ := f
    rw [sameFields, Bool.and_eq_true, ih, List.forall_mem_cons]
    refine and_congr ?_ Iff.rfl
    cases ys.lookup k <;> simp

/-- **Values are the same iff they have one normal form.** -/
theorem same_iff_norm {v w : Value} (hv : Plain v) (hw : Plain w) :
    same v w = true ↔ v.norm = w.norm := by
  induction hv generalizing w with
  | null | bool b | int n | str s => cases w <;> simp [same, norm]
  | @arr items hitems ih =>
    cases hw with
    | arr hys =>
      rw [norm_arr, norm_arr, same, sameItems_iff (fun v hv w hw => ih v hv hw) hys,
        Value.arr.injEq]
    | _ => simp [same, norm]
  | @obj fields hkeys hfields ih =>
    cases hw with
    | @obj others hkeys' hothers =>
      rw [norm_obj, norm_obj, same, Bool.and_eq_true, beq_iff_eq, sameFields_iff, Value.obj.injEq,
        sortFields_eq_iff (by rw [keys_normFields]; exact hkeys)]
      exact (perm_map_iff norm (fun v w => same v w = true) hkeys hkeys'
        fun f hf g hg => ih f hf (hothers g hg)).symm
    | _ => simp [same, norm]

end Value

end Hf2l.Lib.Json
