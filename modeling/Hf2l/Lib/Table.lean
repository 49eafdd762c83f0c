import Mathlib.Algebra.BigOperators.Group.List.Basic
import Mathlib.Algebra.Order.BigOperators.Group.List
import Mathlib.Algebra.Ring.Int.Defs
import Mathlib.Data.List.Nodup

/-!
# `Hf2l.Lib.Table`: relational tables as lists of rows

A table is the list of its rows and `key` reads a row's primary key. `get` finds a row by
its key, `put` writes a row back over the row with the same key, and `total` sums an
integer column. `Keyed` is the primary-key constraint: no two rows share a key.

The lemmas say what a write does to membership, to lookups and to totals. `total_put` is
the one every account rests on: under `Keyed`, writing `r'` over `r` changes the total of a
column by `f r' - f r`.
-/

set_option autoImplicit false

namespace Hf2l.Lib.Table

variable {ρ κ : Type} (key : ρ → κ)

/-- The primary-key constraint: no two rows share a key. -/
def Keyed (t : List ρ) : Prop := (t.map key).Nodup

/-- A number that is above the key of every row. -/
def fresh (key : ρ → Nat) (t : List ρ) : Nat := t.foldr (fun r n => max (key r) n) 0 + 1

/-- The sum of an integer column. -/
def total (f : ρ → Int) (t : List ρ) : Int := (t.map f).sum

variable {key}

variable {t : List ρ} {x r r' : ρ} {f : ρ → ρ} {k : κ}

/-- Rows of a keyed table are determined by their keys. -/
theorem Keyed.eq_of_key_eq (hk : Keyed key t) {y : ρ} (hx : x ∈ t) (hy : y ∈ t)
    (he : key x = key y) : x = y :=
  List.inj_on_of_nodup_map hk hx hy he

/-! ### Insertions and deletions -/

theorem Keyed.append {u : List ρ} (ht : Keyed key t) (hu : Keyed key u)
    (hne : ∀ x ∈ t, ∀ y ∈ u, key x ≠ key y) : Keyed key (t ++ u) := by
  unfold Keyed
  rw [List.map_append, List.nodup_append]
  refine ⟨ht, hu, ?_⟩
  intro a ha b hb
  obtain ⟨x, hx, rfl⟩ := List.mem_map.mp ha
  obtain ⟨y, hy, rfl⟩ := List.mem_map.mp hb
  exact hne x hx y hy

theorem mem_concat : x ∈ t ++ [r] ↔ x ∈ t ∨ x = r := by
  rw [List.mem_append, List.mem_singleton]

theorem Keyed.concat (ht : Keyed key t) (hne : ∀ x ∈ t, key x ≠ key r) : Keyed key (t ++ [r]) := by
  refine ht.append ?_ ?_
  · simp [Keyed]
  · intro x hx y hy
    rw [List.mem_singleton.mp hy]
    exact hne x hx

theorem Keyed.filter (hk : Keyed key t) (p : ρ → Bool) : Keyed key (t.filter p) :=
  (List.filter_sublist.map key).nodup hk

/-- An update in place that keeps every key keeps the constraint. -/
theorem Keyed.map (hk : Keyed key t) (hf : ∀ x ∈ t, key (f x) = key x) : Keyed key (t.map f) := by
  unfold Keyed
  rw [List.map_map, show t.map (key ∘ f) = t.map key from List.map_congr_left hf]
  exact hk

/-- An update in place of other rows only does not change a selection. -/
theorem filter_map_eq {p : ρ → Bool} (hp : ∀ x ∈ t, p (f x) = p x)
    (hf : ∀ x ∈ t, p x = true → f x = x) : (t.map f).filter p = t.filter p := by
  induction t with
  | nil => rfl
  | cons x t ih =>
    have ih' := ih (fun y hy => hp y (List.mem_cons_of_mem x hy))
      (fun y hy => hf y (List.mem_cons_of_mem x hy))
    have hx := hp x List.mem_cons_self
    by_cases h : p x = true
    · rw [List.map_cons, List.filter_cons_of_pos (hx.trans h), List.filter_cons_of_pos h, ih',
        hf x List.mem_cons_self h]
    · rw [List.map_cons, List.filter_cons_of_neg (by rw [hx]; exact h),
        List.filter_cons_of_neg h, ih']

theorem lt_fresh {key : ρ → Nat} (hr : r ∈ t) : key r < fresh key t := by
  unfold fresh
  induction t with
  | nil => simp at hr
  | cons x t ih =>
    rw [List.foldr_cons]
    rcases List.mem_cons.mp hr with rfl | hr
    · omega
    · have hlt := ih hr
      omega

variable [DecidableEq κ] (key)

/-- The row with key `k`, if there is one. -/
def get (k : κ) (t : List ρ) : Option ρ := t.find? (fun r => key r = k)

/-- Write `r` over the row with the same key. A table without that key does not change. -/
def put (r : ρ) (t : List ρ) : List ρ := t.map fun x => if key x = key r then r else x

/-- Apply `f` to the row with key `k`: `UPDATE … WHERE key = k`. -/
def modify (k : κ) (f : ρ → ρ) (t : List ρ) : List ρ := t.map fun x => if key x = k then f x else x

/-- Write `r` over the row with the same key, or add it: `INSERT … ON CONFLICT DO UPDATE`. -/
def upsert (r : ρ) (t : List ρ) : List ρ :=
  if (get key (key r) t).isSome then put key r t else t ++ [r]

variable {key}

/-! ### Lookups -/

theorem get_mem (h : get key k t = some r) : r ∈ t ∧ key r = k :=
  ⟨List.mem_of_find?_eq_some h, by simpa using List.find?_some h⟩

theorem get_none (h : get key k t = none) : ∀ r ∈ t, key r ≠ k := by
  intro r hr
  simpa using List.find?_eq_none.mp h r hr

/-- In a keyed table a row is the one its key finds. -/
theorem Keyed.get_eq (hk : Keyed key t) (hr : r ∈ t) : get key (key r) t = some r := by
  cases h : get key (key r) t with
  | none => exact absurd rfl (get_none h r hr)
  | some x =>
    obtain ⟨hx, he⟩ := get_mem h
    rw [hk.eq_of_key_eq hx hr he]

/-- An update in place that keeps every key updates what a key finds. -/
theorem get_map (hf : ∀ x, key (f x) = key x) (k : κ) (t : List ρ) :
    get key k (t.map f) = (get key k t).map f := by
  unfold get
  rw [List.find?_map]
  refine congrArg (Option.map f) (congrArg (List.find? · t) (funext fun x => ?_))
  show decide (key (f x) = k) = decide (key x = k)
  rw [hf]

theorem get_concat (hne : ∀ x ∈ t, key x ≠ key r) (k : κ) :
    get key k (t ++ [r]) = if k = key r then some r else get key k t := by
  unfold get
  rw [List.find?_append]
  by_cases h : k = key r
  · subst h
    rw [List.find?_eq_none.mpr fun x hx => by simpa using hne x hx]
    simp
  · have h' : ¬ key r = k := fun e => h e.symm
    simp [h, h']

/-- What is found when a key is gone. -/
theorem get_without {k₀ : κ} (k : κ) (t : List ρ) :
    get key k (t.filter fun r => decide (key r ≠ k₀)) = if k = k₀ then none else get key k t := by
  unfold get
  rw [List.find?_filter]
  by_cases h : k = k₀
  · rw [if_pos h]
    refine List.find?_eq_none.mpr fun r _ => ?_
    simp [h]
  · rw [if_neg h]
    refine congrArg (List.find? · t) (funext fun r => ?_)
    by_cases hr : key r = k
    · simp [hr, h]
    · simp [hr]

/-! ### Writes -/

theorem mem_put : x ∈ put key r t ↔ (x ∈ t ∧ key x ≠ key r) ∨ (x = r ∧ ∃ y ∈ t, key y = key r) := by
  simp only [put, List.mem_map]
  constructor
  · rintro ⟨y, hy, rfl⟩
    by_cases h : key y = key r
    · rw [if_pos h]
      exact Or.inr ⟨rfl, y, hy, h⟩
    · rw [if_neg h]
      exact Or.inl ⟨hy, h⟩
  · rintro (⟨hx, h⟩ | ⟨rfl, y, hy, h⟩)
    · exact ⟨x, hx, if_neg h⟩
    · exact ⟨y, hy, if_pos h⟩

/-- A row of the written table is the new row or an old row under another key. -/
theorem of_mem_put (h : x ∈ put key r t) : (x ∈ t ∧ key x ≠ key r) ∨ x = r := by
  rcases mem_put.mp h with h | ⟨h, -⟩
  · exact Or.inl h
  · exact Or.inr h

theorem mem_put_self (hr : r ∈ t) (he : key r' = key r) : r' ∈ put key r' t :=
  mem_put.mpr (Or.inr ⟨rfl, r, hr, he.symm⟩)

theorem mem_put_of_ne (hx : x ∈ t) (hne : key x ≠ key r') : x ∈ put key r' t :=
  mem_put.mpr (Or.inl ⟨hx, hne⟩)

@[simp] theorem map_key_put (r : ρ) (t : List ρ) : (put key r t).map key = t.map key := by
  rw [put, List.map_map]
  refine List.map_congr_left fun x _ => ?_
  by_cases h : key x = key r <;> simp [h]

theorem Keyed.put (hk : Keyed key t) (r : ρ) : Keyed key (put key r t) := by
  unfold Keyed
  rw [map_key_put]
  exact hk

/-- A write that keeps another column of its row keeps that column unique. -/
theorem Keyed.put_column {μ : Type} {column : ρ → μ} (hc : Keyed column t) (hk : Keyed key t)
    (hr : r ∈ t) (he : key r' = key r) (hcol : column r' = column r) :
    Keyed column (Table.put key r' t) := by
  refine hc.map fun x hx => ?_
  by_cases h : key x = key r'
  · rw [if_pos h, hk.eq_of_key_eq hx hr (h.trans he), hcol]
  · rw [if_neg h]

@[simp] theorem length_put (r : ρ) (t : List ρ) : (put key r t).length = t.length := by
  simp [put]

/-- Writing a row that no row shares its key with changes nothing. -/
theorem put_eq_self (h : ∀ x ∈ t, key x ≠ key r) : put key r t = t := by
  rw [put]
  conv_rhs => rw [← List.map_id t]
  exact List.map_congr_left fun x hx => if_neg (h x hx)

/-- Writing a row over itself changes nothing. -/
theorem Keyed.put_self (hk : Keyed key t) (hr : r ∈ t) : Table.put key r t = t := by
  rw [Table.put]
  conv_rhs => rw [← List.map_id t]
  refine List.map_congr_left fun x hx => ?_
  by_cases h : key x = key r
  · rw [if_pos h, hk.eq_of_key_eq hx hr h]
    rfl
  · rw [if_neg h]
    rfl

/-- The second of two writes under one key is the one that counts. -/
theorem put_put (he : key r = key r') : put key r' (put key r t) = put key r' t := by
  simp only [put, List.map_map]
  refine List.map_congr_left fun x _ => ?_
  by_cases h : key x = key r
  · simp [h, he]
  · simp [h]

theorem get_put_self (hk : Keyed key t) (hr : r ∈ t)
    (he : key r' = key r) : get key (key r) (put key r' t) = some r' := by
  have h := (hk.put r').get_eq (mem_put_self hr he)
  rwa [he] at h

theorem get_put_of_ne (hne : k ≠ key r') : get key k (put key r' t) = get key k t := by
  induction t with
  | nil => rfl
  | cons x t ih =>
    simp only [put, get, List.map_cons, List.find?_cons] at ih ⊢
    by_cases hx : key x = key r'
    · have h1 : ¬ key r' = k := fun e => hne e.symm
      have h2 : ¬ key x = k := fun e => hne (by rw [← e, hx])
      simp only [hx, if_true, h1, decide_false]
      exact ih
    · simp only [hx, if_false]
      by_cases hxk : key x = k
      · simp [hxk]
      · simp only [hxk, decide_false]
        exact ih

theorem get_put (hk : Keyed key t) (hr : r ∈ t) (r' : ρ) (he : key r' = key r) (k : κ) :
    get key k (put key r' t) = if k = key r' then some r' else get key k t := by
  by_cases h : k = key r'
  · rw [if_pos h, h, he]
    exact get_put_self hk hr he
  · rw [if_neg h]
    exact get_put_of_ne h

/-! ### Updates in place -/

theorem mem_modify : x ∈ modify key k f t ↔ (x ∈ t ∧ key x ≠ k) ∨ ∃ y ∈ t, key y = k ∧ x = f y := by
  simp only [modify, List.mem_map]
  constructor
  · rintro ⟨y, hy, rfl⟩
    by_cases h : key y = k
    · exact Or.inr ⟨y, hy, h, if_pos h⟩
    · rw [if_neg h]
      exact Or.inl ⟨hy, h⟩
  · rintro (⟨hx, h⟩ | ⟨y, hy, h, rfl⟩)
    · exact ⟨x, hx, if_neg h⟩
    · exact ⟨y, hy, if_pos h⟩

theorem modify_eq_self (h : ∀ x ∈ t, key x ≠ k) : modify key k f t = t := by
  rw [modify]
  conv_rhs => rw [← List.map_id t]
  exact List.map_congr_left fun x hx => if_neg (h x hx)

/-- Updating the one row with a key is writing the updated row over it. -/
theorem Keyed.modify_eq_put (hk : Keyed key t)
    (hr : get key k t = some r) (hf : key (f r) = k) :
    Table.modify key k f t = Table.put key (f r) t := by
  obtain ⟨hmem, hkey⟩ := get_mem hr
  refine List.map_congr_left fun x hx => ?_
  by_cases h : key x = k
  · rw [if_pos h, if_pos (h.trans hf.symm), hk.eq_of_key_eq hx hmem (h.trans hkey.symm)]
  · rw [if_neg h, if_neg fun e => h (e.trans hf)]

/-- Updates that keep the key: what a key finds afterwards. -/
theorem get_modify (hf : ∀ x, key x = k → key (f x) = k) (k' : κ) (t : List ρ) :
    get key k' (modify key k f t) = if k' = k then (get key k t).map f else get key k' t := by
  have hkeep : ∀ x, key (if key x = k then f x else x) = key x := by
    intro x
    by_cases h : key x = k
    · rw [if_pos h, hf x h, h]
    · rw [if_neg h]
  rw [modify, get_map hkeep]
  by_cases hk' : k' = k
  · subst hk'
    rw [if_pos rfl]
    cases hg : get key k' t with
    | none => rfl
    | some r => simp [(get_mem hg).2]
  · rw [if_neg hk']
    cases hg : get key k' t with
    | none => rfl
    | some r =>
      have hne : key r ≠ k := fun e => hk' ((get_mem hg).2.symm.trans e)
      simp [hne]

theorem Keyed.modify (hk : Keyed key t) (hf : ∀ x, key x = k → key (f x) = k) :
    Keyed key (Table.modify key k f t) := by
  refine hk.map fun x _ => ?_
  by_cases h : key x = k
  · rw [if_pos h, hf x h, h]
  · rw [if_neg h]

/-! ### Inserts that may replace a row -/

theorem get_upsert (r : ρ) (k : κ) (t : List ρ) :
    get key k (upsert key r t) = if k = key r then some r else get key k t := by
  unfold upsert
  cases h : get key (key r) t with
  | none => exact get_concat (get_none h) k
  | some y =>
    rw [Option.isSome_some, if_pos rfl]
    by_cases hk : k = key r
    · have hkeep : ∀ x, key (if key x = key r then r else x) = key x := by
        intro x
        by_cases hx : key x = key r
        · rw [if_pos hx, hx]
        · rw [if_neg hx]
      rw [if_pos hk, hk, put, get_map hkeep, h, Option.map_some, if_pos (get_mem h).2]
    · rw [if_neg hk]
      exact get_put_of_ne hk

theorem Keyed.upsert (hk : Keyed key t) (r : ρ) : Keyed key (Table.upsert key r t) := by
  unfold Table.upsert
  cases h : get key (key r) t with
  | none => exact hk.concat (get_none h)
  | some y => exact hk.put r

/-! ### Totals -/

@[simp] theorem total_nil (f : ρ → Int) : total f ([] : List ρ) = 0 := rfl

@[simp] theorem total_cons (f : ρ → Int) (r : ρ) (t : List ρ) :
    total f (r :: t) = f r + total f t := by
  simp [total]

@[simp] theorem total_append (f : ρ → Int) (t u : List ρ) :
    total f (t ++ u) = total f t + total f u := by
  simp [total]

theorem total_congr {f g : ρ → Int} (h : ∀ r ∈ t, f r = g r) : total f t = total g t :=
  congrArg List.sum (List.map_congr_left h)

theorem total_map {f : ρ → Int} {g : ρ → ρ} : total f (t.map g) = total (fun r => f (g r)) t := by
  simp [total, Function.comp_def]

theorem total_add (f g : ρ → Int) (t : List ρ) :
    total (fun r => f r + g r) t = total f t + total g t := by
  induction t with
  | nil => rfl
  | cons r t ih =>
    simp only [total_cons, ih]
    omega

theorem total_nonneg {f : ρ → Int} (h : ∀ r ∈ t, 0 ≤ f r) : 0 ≤ total f t := by
  refine List.sum_nonneg fun x hx => ?_
  obtain ⟨r, hr, rfl⟩ := List.mem_map.mp hx
  exact h r hr

theorem total_le {f g : ρ → Int} (h : ∀ r ∈ t, f r ≤ g r) : total f t ≤ total g t := by
  induction t with
  | nil => exact le_refl _
  | cons r t ih =>
    have h1 := h r List.mem_cons_self
    have h2 := ih fun x hx => h x (List.mem_cons_of_mem r hx)
    simp only [total_cons]
    omega

theorem total_eq_zero {f : ρ → Int} (h : ∀ r ∈ t, f r = 0) : total f t = 0 := by
  refine List.sum_eq_zero fun x hx => ?_
  obtain ⟨r, hr, rfl⟩ := List.mem_map.mp hx
  exact h r hr

theorem total_const_one (t : List ρ) : total (fun _ => 1) t = t.length := by
  induction t with
  | nil => rfl
  | cons r t ih =>
    simp only [total_cons, ih, List.length_cons]
    omega

/-- A filtered column is the column that counts the other rows as zero. -/
theorem total_filter (f : ρ → Int) (p : ρ → Bool) (t : List ρ) :
    total f (t.filter p) = total (fun r => if p r then f r else 0) t := by
  induction t with
  | nil => rfl
  | cons r t ih =>
    by_cases h : p r <;> simp [h, ih]

/-- Splitting a column by a predicate on the rows. -/
theorem total_split (f : ρ → Int) (p : ρ → Bool) (t : List ρ) :
    total f t = total f (t.filter p) + total f (t.filter fun r => !p r) := by
  rw [total_filter, total_filter, ← total_add]
  refine total_congr fun r _ => ?_
  cases p r <;> simp

omit [DecidableEq κ] in
/-- A row of a keyed table stands between rows with other keys. -/
theorem Keyed.split (hk : Keyed key t) (hr : r ∈ t) :
    ∃ a b, t = a ++ r :: b ∧ (∀ x ∈ a, key x ≠ key r) ∧ ∀ x ∈ b, key x ≠ key r := by
  obtain ⟨a, b, rfl⟩ := List.append_of_mem hr
  unfold Keyed at hk
  rw [List.map_append, List.map_cons, List.nodup_middle, List.nodup_cons, List.mem_append,
    not_or] at hk
  exact ⟨a, b, rfl, fun x hx e => hk.1.1 (e ▸ List.mem_map_of_mem hx),
    fun x hx e => hk.1.2 (e ▸ List.mem_map_of_mem hx)⟩

/-- **Writing `r'` over `r` changes a total by `f r' - f r`.** -/
theorem total_put (f : ρ → Int) (hk : Keyed key t) (hr : r ∈ t)
    (he : key r' = key r) : total f (put key r' t) = total f t - f r + f r' := by
  obtain ⟨a, b, rfl, ha, hb⟩ := hk.split hr
  have hput : put key r' (a ++ r :: b) = put key r' a ++ r' :: put key r' b := by simp [put, he]
  rw [hput, put_eq_self fun x hx => he ▸ ha x hx, put_eq_self fun x hx => he ▸ hb x hx]
  simp only [total_append, total_cons]
  omega

/-- A row that is added or replaced counts instead of what was there. -/
theorem total_upsert (f : ρ → Int) (hk : Keyed key t) (r : ρ) :
    total f (upsert key r t) = total f t - (get key (key r) t).elim 0 f + f r := by
  unfold upsert
  cases h : get key (key r) t with
  | none => simp
  | some y =>
    obtain ⟨hy, he⟩ := get_mem h
    rw [Option.isSome_some, if_pos rfl, total_put f hk hy he.symm]
    rfl

/-- Taking one row out of a keyed table takes its entry out of the total. -/
theorem total_erase (f : ρ → Int) (hk : Keyed key t) (hr : r ∈ t) :
    total f (t.filter fun x => decide (key x ≠ key r)) = total f t - f r := by
  obtain ⟨a, b, rfl, ha, hb⟩ := hk.split hr
  rw [List.filter_append, List.filter_cons_of_neg (by simp),
    List.filter_eq_self.mpr fun x hx => by simpa using ha x hx,
    List.filter_eq_self.mpr fun x hx => by simpa using hb x hx]
  simp only [total_append, total_cons]
  omega

/-! ### Grouping by a foreign key -/

/-- A column that is `c` in the one row with key `k` and zero elsewhere. -/
theorem total_indicator (hk : Keyed key t) (hr : r ∈ t) (c : Int) :
    total (fun x => if key r = key x then c else 0) t = c := by
  have herase := total_erase (fun x => if key r = key x then c else 0) hk hr
  have hzero : total (fun x => if key r = key x then c else 0)
      (t.filter fun x => decide (key x ≠ key r)) = 0 := by
    refine total_eq_zero fun x hx => if_neg fun e => ?_
    exact of_decide_eq_true (List.mem_filter.mp hx).2 e.symm
  rw [hzero] at herase
  simp only [if_true] at herase
  omega

/-- The total of a column, summed first over the rows that refer to one row of `u`. -/
theorem total_group {σ : Type} {t : List σ} {u : List ρ} (hk : Keyed key u) {owner : σ → κ}
    (ho : ∀ x ∈ t, ∃ y ∈ u, key y = owner x) (f : σ → Int) :
    total f t = total (fun y => total f (t.filter fun x => decide (owner x = key y))) u := by
  induction t with
  | nil => simp [total]
  | cons x t ih =>
    obtain ⟨y, hy, hyx⟩ := ho x List.mem_cons_self
    have hsplit : ∀ z ∈ u, total f ((x :: t).filter fun w => decide (owner w = key z)) =
        (if key y = key z then f x else 0) +
          total f (t.filter fun w => decide (owner w = key z)) := by
      intro z _
      by_cases h : owner x = key z
      · rw [List.filter_cons_of_pos (by simpa using h), total_cons, if_pos (hyx.trans h)]
      · rw [List.filter_cons_of_neg (by simpa using h), if_neg fun e => h (hyx.symm.trans e)]
        omega
    rw [total_cons, ih fun w hw => ho w (List.mem_cons_of_mem x hw), total_congr hsplit, total_add,
      total_indicator hk hy]

end Hf2l.Lib.Table
