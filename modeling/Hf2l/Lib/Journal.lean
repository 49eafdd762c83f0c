import Mathlib.Data.Int.ConditionallyCompleteOrder
import Mathlib.Data.List.Sort
import Mathlib.Order.ConditionallyCompleteLattice.Basic

/-!
# `Hf2l.Lib.Journal`: a numbered log with retention, and its readers

A journal holds entries with numbers and times, the last number that was assigned, and a floor.
A transaction appends entries under the next numbers, and may drop others when it does
(`Written`). Retention goes in two steps, which other transactions may come between: `select`
picks the lowest numbers among the entries that are old enough, and `trim` removes what was
picked and raises the floor to it.

If the clock never runs backwards, no entry is left at or below the floor (`Ordered.trim`): what
was picked is closed under going down (`Selected`), because the entries of lower numbers are
older.

A reader asks for `page`s of the entries that it may see, each after the cursor that came with
the page before. `Ordered` is what makes the pages of a reader that is not below the floor
complete and its cursor monotone (`page_complete`, `Reader.Valid.read`).
-/

set_option autoImplicit false

namespace Hf2l.Lib

structure Journal (α : Type) where
  entries : List α
  /-- The last number that was assigned. -/
  last : Nat
  /-- No number above it was removed by retention. -/
  floor : Nat

namespace Journal

variable {α : Type} (num : α → Nat) (stamp : α → Int)

/-! ### What happens to a journal -/

/-- What a transaction appends, each entry at a reading of its clock no earlier than the reading
of the entry before. `k` is the index of the last reading. -/
inductive Written (clock : Nat → Int) (j : Journal α) : Nat → Journal α → Prop
  | same : Written clock j 0 j
  | write {i k : Nat} {j' : Journal α} (h : Written clock j i j') (hik : i ≤ k) (keep : α →
    Bool) (e : α)
    (hn : num e = j'.last + 1) (ht : stamp e = clock k) :
    Written clock j k ⟨j'.entries.filter keep ++ [e], j'.last + 1, j'.floor⟩

/-- The entries by their numbers. -/
def byNumber (l : List α) : List α := l.insertionSort fun a b => num a ≤ num b

/-- The numbers of the first `batch` entries that are older than `cutoff`. -/
def select (cutoff : Int) (batch : Nat) (j : Journal α) : List Nat :=
  ((byNumber num (j.entries.filter fun e => stamp e < cutoff)).take batch).map num

/-- Remove what was selected. -/
def trim (ids : List Nat) (j : Journal α) : Journal α :=
  ⟨j.entries.filter fun e => num e ∉ ids, j.last, ids.foldl max j.floor⟩

/-! ### Order -/

/-- The first was written before the second. -/
def Before (a b : α) : Prop := num a < num b ∧ stamp a ≤ stamp b

structure Ordered (j : Journal α) : Prop where
  entries : j.entries.Pairwise (Before num stamp)
  last : ∀ e ∈ j.entries, num e ≤ j.last
  above : ∀ e ∈ j.entries, j.floor < num e
  floor : j.floor ≤ j.last
  /-- The last entry is there, or retention has removed it. -/
  top : (∃ e ∈ j.entries, num e = j.last) ∨ j.last ≤ j.floor

/-- No entry was written after `t`. -/
def Past (t : Int) (j : Journal α) : Prop := ∀ e ∈ j.entries, stamp e ≤ t

/-- Numbers that were assigned, and with each of them those of all lower entries. -/
structure Selected (ids : List Nat) (j : Journal α) : Prop where
  assigned : ∀ n ∈ ids, n ≤ j.last
  closed : ∀ n ∈ ids, ∀ e ∈ j.entries, num e ≤ n → num e ∈ ids

variable {num stamp} {j j' : Journal α}

variable {clock : Nat → Int} {k after : Nat} {e : α} {l : List α} {ids : List Nat}

theorem Written.append {i : Nat} (h : Written num stamp clock j i j') (hik : i ≤ k) (e : α)
    (hn : num e = j'.last + 1) (ht : stamp e = clock k) :
    Written num stamp clock j k ⟨j'.entries ++ [e], j'.last + 1, j'.floor⟩ := by
  simpa using h.write hik (fun _ => true) e hn ht

/-- The numbers of a journal grow, and its floor stays. -/
theorem Written.last_le (h : Written num stamp clock j k j') :
    j.last ≤ j'.last ∧ j'.floor = j.floor := by
  induction h with
  | same => exact ⟨Nat.le_refl _, rfl⟩
  | write _ _ keep e _ _ ih => exact ⟨Nat.le_succ_of_le ih.1, ih.2⟩

/-- An entry that was not there has a new number. -/
theorem Written.mem (h : Written num stamp clock j k j') (he : e ∈ j'.entries) :
    e ∈ j.entries ∨ j.last < num e := by
  induction h with
  | same => exact Or.inl he
  | write h _ keep x hn _ ih =>
    rcases List.mem_append.mp he with he | he
    · exact ih (List.mem_of_mem_filter he)
    · obtain rfl := List.mem_singleton.mp he
      have := h.last_le.1
      exact Or.inr (by omega)

/-- **What is written under a monotone clock stays ordered.** -/
theorem Ordered.written (hm : Monotone clock) (ho : Ordered num stamp j)
    (hp : Past stamp (clock 0) j) (h : Written num stamp clock j k j') :
    Ordered num stamp j' ∧ Past stamp (clock k) j' := by
  induction h with
  | same => exact ⟨ho, hp⟩
  | @write i k j' h hik keep e hn ht ih =>
    obtain ⟨ho, hp⟩ := ih
    have hold : ∀ x ∈ j'.entries.filter keep, x ∈ j'.entries :=
      fun x hx => List.mem_of_mem_filter hx
    refine ⟨⟨?_, fun x hx => ?_, fun x hx => ?_, Nat.le_succ_of_le ho.floor, ?_⟩, fun x hx => ?_⟩
    · rw [List.pairwise_append]
      refine ⟨ho.entries.filter keep, List.pairwise_singleton _ e, fun x hx y hy => ?_⟩
      obtain rfl := List.mem_singleton.mp hy
      have hlast := ho.last x (hold x hx)
      have htime : stamp x ≤ clock k := (hp x (hold x hx)).trans (hm hik)
      exact ⟨by omega, ht ▸ htime⟩
    · rcases List.mem_append.mp hx with hx | hx
      · exact Nat.le_succ_of_le (ho.last x (hold x hx))
      · rw [List.mem_singleton.mp hx, hn]
    · rcases List.mem_append.mp hx with hx | hx
      · exact ho.above x (hold x hx)
      · have := ho.floor
        show j'.floor < num x
        rw [List.mem_singleton.mp hx]
        omega
    · exact Or.inl ⟨e, List.mem_append_right _ (List.mem_singleton.mpr rfl), hn⟩
    · rcases List.mem_append.mp hx with hx | hx
      · exact (hp x (hold x hx)).trans (hm hik)
      · rw [List.mem_singleton.mp hx, ht]

/-! ### Retention -/

section
variable (h : l.Pairwise (Before num stamp))
include h

/-- In an ordered list a lower number comes first. -/
theorem before_of_lt {a b : α} (ha : a ∈ l) (hb : b ∈ l) (hlt : num a < num b) :
    Before num stamp a b := by
  induction h with
  | nil => exact absurd ha List.not_mem_nil
  | cons hhead htail ih =>
    rcases List.mem_cons.mp ha with rfl | ha'
    · rcases List.mem_cons.mp hb with rfl | hb'
      · omega
      · exact hhead b hb'
    · rcases List.mem_cons.mp hb with rfl | hb'
      · have := (hhead a ha').1
        omega
      · exact ih ha' hb'

theorem mem_take_of_le {n : Nat} {a b : α} (ha : a ∈ l) (hb : b ∈ l.take n) (hle : num a ≤ num b) :
    a ∈ l.take n := by
  rw [← List.take_append_drop n l] at h ha
  rcases List.mem_append.mp ha with ha | ha
  · exact ha
  · have := ((List.pairwise_append.mp h).2.2 b hb a ha).1
    omega

/-- Entries that are kept in the order of their numbers are not moved. -/
theorem byNumber_eq : byNumber num l = l :=
  List.Pairwise.insertionSort_eq (h.imp fun hab => hab.1.le)

end

/-- **What is selected is closed under going down**: a lower entry is older. -/
theorem Ordered.selected (h : Ordered num stamp j) (cutoff : Int) (batch : Nat) :
    Selected num (select num stamp cutoff batch j) j := by
  have hold : (j.entries.filter fun e => stamp e < cutoff).Pairwise (Before num stamp) :=
    h.entries.filter _
  unfold select
  rw [byNumber_eq hold]
  refine ⟨fun n hn => ?_, fun n hn e he hle => ?_⟩
  · obtain ⟨x, hx, rfl⟩ := List.mem_map.mp hn
    exact h.last x (List.mem_of_mem_filter (List.mem_of_mem_take hx))
  · obtain ⟨x, hx, rfl⟩ := List.mem_map.mp hn
    rcases Nat.eq_or_lt_of_le hle with heq | hlt
    · exact List.mem_map.mpr ⟨x, hx, heq.symm⟩
    · obtain ⟨hxmem, hxold⟩ := List.mem_filter.mp (List.mem_of_mem_take hx)
      have hbefore := before_of_lt h.entries he hxmem hlt
      have heold : stamp e < cutoff := hbefore.2.trans_lt (by simpa using hxold)
      have hemem : e ∈ j.entries.filter fun e => stamp e < cutoff :=
        List.mem_filter.mpr ⟨he, by simpa using heold⟩
      exact List.mem_map.mpr ⟨e, mem_take_of_le hold hemem hx hle, rfl⟩

theorem Selected.written (hs : Selected num ids j) (h : Written num stamp clock j k j') :
    Selected num ids j' where
  assigned n hn := (hs.assigned n hn).trans h.last_le.1
  closed n hn e he hle := by
    rcases h.mem he with he | hnew
    · exact hs.closed n hn e he hle
    · have := hs.assigned n hn
      omega

theorem Selected.trim (hs : Selected num ids j) (ids' : List Nat) :
    Selected num ids (trim num ids' j) where
  assigned := hs.assigned
  closed n hn e he hle := hs.closed n hn e (List.mem_of_mem_filter he) hle

theorem foldl_max_le (ids : List Nat) (a b : Nat) :
    ids.foldl max a ≤ b ↔ a ≤ b ∧ ∀ n ∈ ids, n ≤ b := by
  induction ids generalizing a with
  | nil => simp
  | cons n ids ih =>
    rw [List.foldl_cons, ih, List.forall_mem_cons, Nat.max_le, and_assoc]

theorem le_foldl_max (ids : List Nat) (a : Nat) :
    a ≤ ids.foldl max a ∧ ∀ n ∈ ids, n ≤ ids.foldl max a :=
  (foldl_max_le ids a _).mp (Nat.le_refl _)

/-- **Retention leaves nothing at or below the floor.** -/
theorem Ordered.trim (h : Ordered num stamp j) (hs : Selected num ids j) :
    Ordered num stamp (trim num ids j) where
  entries := h.entries.filter _
  last e he := h.last e (List.mem_of_mem_filter he)
  above e he := by
    obtain ⟨he, hout⟩ := List.mem_filter.mp he
    have hout : num e ∉ ids := by simpa using hout
    have hle : ids.foldl max j.floor ≤ num e - 1 := by
      have := h.above e he
      refine (foldl_max_le ids _ _).mpr ⟨by omega, fun n hn => ?_⟩
      have : ¬ num e ≤ n := fun hle => hout (hs.closed n hn e he hle)
      omega
    have := h.above e he
    show ids.foldl max j.floor < num e
    omega
  floor := (foldl_max_le ids _ _).mpr ⟨h.floor, hs.assigned⟩
  top := by
    obtain ⟨hfloor, hids⟩ := le_foldl_max ids j.floor
    rcases h.top with ⟨e, he, htop⟩ | hgone
    · by_cases hmem : num e ∈ ids
      · exact Or.inr (htop ▸ hids _ hmem)
      · exact Or.inl ⟨e, List.mem_filter.mpr ⟨he, by simpa using hmem⟩, htop⟩
    · exact Or.inr (hgone.trans hfloor)

theorem Past.trim {t : Int} (h : Past stamp t j) (ids : List Nat) : Past stamp t (trim num ids j) :=
  fun e he => h e (List.mem_of_mem_filter he)

/-! ### Readers -/

/-- What a reader gets, and where it goes on. -/
structure Page (α : Type) where
  rows : List α
  cursor : Nat

variable (num) in
/-- The highest number that is there, or else the cursor of the request. -/
def highest (after : Nat) (j : Journal α) : Nat :=
  match (j.entries.map num).max? with
  | some n => if n = 0 then after else n
  | none => after

variable (num) in
/-- At most `limit` entries after the cursor. One more is looked up: if it is there, the reader
goes on after the last it got, and else after the last there is. -/
def page (visible : α → Bool) (after limit : Nat) (j : Journal α) : Page α :=
  let found := (byNumber num (j.entries.filter fun e => after < num e && visible e)).take
    (limit + 1)
  let rows := found.take limit
  { rows
    cursor := if limit < found.length then
      (rows.getLast?.map num).getD after else highest num after j }

variable (num) in
/-- What a page is cut from. -/
abbrev unread (visible : α → Bool) (after : Nat) (j : Journal α) : List α :=
  j.entries.filter fun e => after < num e && visible e

theorem page_rows (h : Ordered num stamp j) (visible : α → Bool) (after limit : Nat) :
    (page num visible after limit j).rows = (unread num visible after j).take limit := by
  show ((byNumber num (unread num visible after j)).take (limit + 1)).take limit = _
  rw [byNumber_eq (h.entries.filter _), List.take_take, Nat.min_eq_left (Nat.le_succ limit)]

theorem page_cursor (h : Ordered num stamp j) (visible : α → Bool) (after limit : Nat) :
    (page num visible after limit j).cursor =
      if limit < (unread num visible after j).length then
        (((unread num visible after j).take limit).getLast?.map num).getD after
      else highest num after j := by
  unfold page unread
  rw [byNumber_eq (h.entries.filter _)]
  simp only [List.take_take, Nat.min_eq_left (Nat.le_succ limit), List.length_take]
  refine if_congr ?_ rfl rfl
  omega

/-- The last of an ordered list has the highest number. -/
theorem le_getLast (h : l.Pairwise (Before num stamp)) {x : α} (hl : l.getLast? = some x)
    (he : e ∈ l) :
    num e ≤ num x := by
  obtain ⟨init, rfl⟩ := List.getLast?_eq_some_iff.mp hl
  rcases List.mem_append.mp he with he | he
  · exact ((List.pairwise_append.mp h).2.2 e he x (List.mem_singleton.mpr rfl)).1.le
  · rw [List.mem_singleton.mp he]

variable (num) in
theorem highest_eq_or_mem (after : Nat) (j : Journal α) :
    highest num after j = after ∧ (∀ e ∈ j.entries, num e = 0) ∨
      (∃ e ∈ j.entries, highest num after j = num e) ∧
        ∀ e ∈ j.entries, num e ≤ highest num after j := by
  unfold highest
  cases hmax : (j.entries.map num).max? with
  | none =>
    have hnil : j.entries = [] := by simpa using List.max?_eq_none_iff.mp hmax
    exact Or.inl ⟨rfl, fun e he => by simp [hnil] at he⟩
  | some n =>
    obtain ⟨hmem, hle⟩ := List.max?_eq_some_iff.mp hmax
    obtain ⟨x, hx, rfl⟩ := List.mem_map.mp hmem
    have hle : ∀ e ∈ j.entries, num e ≤ num x := fun e he => hle _ (List.mem_map_of_mem he)
    show (if num x = 0 then after else num x) = after ∧ _ ∨ _
    by_cases h0 : num x = 0
    · exact Or.inl ⟨if_pos h0, fun e he => by have := hle e he; omega⟩
    · refine Or.inr ⟨⟨x, hx, if_neg h0⟩, fun e he => ?_⟩
      show num e ≤ if num x = 0 then after else num x
      rw [if_neg h0]
      exact hle e he

/-- **A page is complete**: every visible entry between the old cursor and the new one is in it. -/
theorem page_complete (h : Ordered num stamp j) (visible : α → Bool) {limit : Nat}
    (he : e ∈ j.entries) (hv : visible e = true) (hafter : after < num e)
    (hcursor : num e ≤ (page num visible after limit j).cursor) :
    e ∈ (page num visible after limit j).rows := by
  have hmem : e ∈ unread num visible after j :=
    List.mem_filter.mpr ⟨he, by simp [hv, hafter]⟩
  have hsorted : (unread num visible after j).Pairwise (Before num stamp) := h.entries.filter _
  rw [page_cursor h] at hcursor
  rw [page_rows h]
  split_ifs at hcursor with hmore
  · -- There is more: the cursor is the last row, and what is not above it is in the page.
    cases hlast : ((unread num visible after j).take limit).getLast? with
    | none =>
      simp only [hlast, Option.map_none, Option.getD_none] at hcursor
      omega
    | some x =>
      have hx := List.mem_of_getLast? hlast
      simp only [hlast, Option.map_some, Option.getD_some] at hcursor
      exact mem_take_of_le hsorted hmem hx hcursor
  · rw [List.take_of_length_le (by omega)]
    exact hmem

/-- A row is visible, is after the old cursor and is not after the new one. -/
theorem page_mem (h : Ordered num stamp j) (visible : α → Bool) {limit : Nat}
    (he : e ∈ (page num visible after limit j).rows) :
    e ∈ j.entries ∧ visible e = true ∧ after < num e ∧
      num e ≤ (page num visible after limit j).cursor := by
  have hsorted : (unread num visible after j).Pairwise (Before num stamp) := h.entries.filter _
  rw [page_rows h] at he
  obtain ⟨hmem, hcond⟩ := List.mem_filter.mp (List.mem_of_mem_take he)
  simp only [Bool.and_eq_true, decide_eq_true_eq] at hcond
  refine ⟨hmem, hcond.2, hcond.1, ?_⟩
  rw [page_cursor h]
  split_ifs with hmore
  · cases hx : ((unread num visible after j).take limit).getLast? with
    | none => simp [List.getLast?_eq_none_iff.mp hx] at he
    | some x => exact le_getLast (hsorted.sublist (List.take_sublist _ _)) hx he
  · rcases highest_eq_or_mem num after j with ⟨-, hzero⟩ | ⟨-, hle⟩
    · have := hzero e hmem
      omega
    · exact hle e hmem

/-- A reader that is not below the floor never goes back, nor past the last number. -/
theorem le_page_cursor (h : Ordered num stamp j) (visible : α → Bool) (limit : Nat)
    (hfloor : j.floor ≤ after) (hlast : after ≤ j.last) :
    after ≤ (page num visible after limit j).cursor ∧
      (page num visible after limit j).cursor ≤ j.last := by
  rw [page_cursor h]
  split_ifs with hmore
  · cases hx : ((unread num visible after j).take limit).getLast? with
    | none => exact ⟨Nat.le_refl _, hlast⟩
    | some x =>
      obtain ⟨hmem, hcond⟩ := List.mem_filter.mp (List.mem_of_mem_take (List.mem_of_getLast? hx))
      simp only [Bool.and_eq_true, decide_eq_true_eq] at hcond
      exact ⟨hcond.1.le, h.last x hmem⟩
  · rcases highest_eq_or_mem num after j with ⟨heq, -⟩ | ⟨⟨x, hx, heq⟩, hle⟩
    · rw [heq]
      exact ⟨Nat.le_refl _, hlast⟩
    · refine ⟨?_, heq ▸ h.last x hx⟩
      -- The last entry is there, or the floor has reached it and nothing is.
      rcases h.top with ⟨e, he, htop⟩ | hgone
      · exact hlast.trans (htop ▸ hle e he)
      · have := h.above x hx
        have := h.last x hx
        omega

/-- A reader: its cursor, and the numbers of what it got so far. -/
structure Reader where
  cursor : Nat
  delivered : List Nat

variable (num) in
/-- The reader after a page. -/
def Reader.read (r : Reader) (p : Page α) : Reader where
  cursor := p.cursor
  delivered := r.delivered ++ p.rows.map num

/-- What was delivered is in order, up to the cursor. -/
structure Reader.Valid (r : Reader) (j : Journal α) : Prop where
  delivered : r.delivered.Pairwise (· < ·)
  reached : ∀ n ∈ r.delivered, n ≤ r.cursor
  cursor : r.cursor ≤ j.last

/-- **Nothing is delivered twice, and the cursor never goes back.** -/
theorem Reader.Valid.read {r : Reader} (hr : r.Valid j) (h : Ordered num stamp j)
    (visible : α → Bool) (limit : Nat) (hfloor : j.floor ≤ r.cursor) :
    (r.read num (page num visible r.cursor limit j)).Valid j ∧
      r.cursor ≤ (page num visible r.cursor limit j).cursor := by
  obtain ⟨hle, hlast⟩ := le_page_cursor h visible limit hfloor hr.cursor
  refine ⟨⟨?_, fun n hn => ?_, hlast⟩, hle⟩
  · show (r.delivered ++ (page num visible r.cursor limit j).rows.map num).Pairwise (· < ·)
    rw [List.pairwise_append]
    refine ⟨hr.delivered, ?_, fun n hn m hm => ?_⟩
    · rw [page_rows h, List.pairwise_map]
      exact ((h.entries.filter _).sublist (List.take_sublist _ _)).imp fun hab => hab.1
    · obtain ⟨e, he, rfl⟩ := List.mem_map.mp hm
      exact (hr.reached n hn).trans_lt (page_mem h visible he).2.2.1
  · rcases List.mem_append.mp hn with hn | hn
    · exact (hr.reached n hn).trans hle
    · obtain ⟨e, he, rfl⟩ := List.mem_map.mp hn
      exact (page_mem h visible he).2.2.2

/-- A reader does not see the last number fall. -/
theorem Reader.Valid.mono {r : Reader} (hr : r.Valid j) (hle : j.last ≤ j'.last) : r.Valid j' :=
  ⟨hr.delivered, hr.reached, hr.cursor.trans hle⟩

end Journal

end Hf2l.Lib
