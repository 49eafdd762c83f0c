import Mathlib.Data.Finset.Card
import Mathlib.Data.List.Nodup
import Mathlib.Data.List.Perm.Basic

/-!
# `Hf2l.Lib.Matching`: seating slots by augmenting paths

Slots are numbers, and `cands i` lists the items slot `i` can take. `Owners` maps each taken
item to the slot that holds it. `place` seats one more slot: it takes a free item, or an item
whose holder `place` can move elsewhere. One attempt looks at no item twice. `seatAll` seats
a list of slots one after another and gives up at the first that finds no seat.

`Seated` is the invariant: no item is held twice, and each holder can take its item.
`place_tried` says what a successful attempt does: the holders are the old holders and the
new slot, each exactly as often as before. So after `seatAll` every slot of the list holds
exactly one item (`seatAll_seated`).

`place` has a bound on the length of the path it follows. `Search` is the recursion without a
bound, call by call. Every call looks at a new item, so the search ends: `place_search`, for
any bound above the number of items. `Search.unique` says that it ends in one way.

A failed attempt has looked at a set of items that the slots in it cannot leave: `Stuck`.
These slots are one more than the items, so no assignment seats them all. That is
`seatAll_complete`: when `seatAll` gives up there is no assignment.
-/

set_option autoImplicit false

namespace Hf2l.Lib.Matching

variable {υ : Type} [DecidableEq υ]

/-- The slot that holds each taken item. -/
abbrev Owners (υ : Type) := List (υ × Nat)

/-- The slot that holds `u`. -/
def owner (u : υ) (o : Owners υ) : Option Nat := (o.find? fun e => e.1 = u).map Prod.snd

/-- Give `u` to slot `i`, whoever held it. -/
def give (u : υ) (i : Nat) (o : Owners υ) : Owners υ := (u, i) :: o.filter fun e => e.1 ≠ u

/-- Look for a seat for `slot` among `us`. `move old seen` tries to move `old` elsewhere. The
first part of the result is what the attempt has looked at. -/
def seat (move : Nat → List υ → List υ × Option (Owners υ)) (slot : Nat) (o : Owners υ) :
    List υ → List υ → List υ × Option (Owners υ)
  | [], seen => (seen, none)
  | u :: us, seen =>
    if u ∈ seen then seat move slot o us seen
    else match owner u o with
      | none => (u :: seen, some (give u slot o))
      | some old =>
        match move old (u :: seen) with
        | (seen', some o') => (seen', some (give u slot o'))
        | (seen', none) => seat move slot o us seen'

/-- Seat `slot`, following a path of at most `fuel` moves. -/
def place (cands : Nat → List υ) (o : Owners υ) : Nat → Nat → List υ → List υ × Option (Owners υ)
  | 0, _, seen => (seen, none)
  | fuel + 1, slot, seen => seat (place cands o fuel) slot o (cands slot) seen

/-- Seat every slot of the list. -/
def seatAll (cands : Nat → List υ) (fuel : Nat) : List Nat → Owners υ → Option (Owners υ)
  | [], o => some o
  | i :: is, o =>
    match (place cands o fuel i []).2 with
    | none => none
    | some o' => seatAll cands fuel is o'

/-- No item is held twice, and each holder can take its item. -/
structure Seated (cands : Nat → List υ) (o : Owners υ) : Prop where
  once : (o.map Prod.fst).Nodup
  fits : ∀ e ∈ o, e.1 ∈ cands e.2

/-! ### One change of hands -/

section Give

variable {o : Owners υ} {u : υ} {i : Nat}

theorem owner_mem (h : owner u o = some i) : (u, i) ∈ o := by
  unfold owner at h
  obtain ⟨e, he, rfl⟩ := Option.map_eq_some_iff.mp h
  have hu : e.1 = u := by simpa using List.find?_some he
  rw [← hu]
  exact List.mem_of_find?_eq_some he

theorem owner_none (h : owner u o = none) : ∀ e ∈ o, e.1 ≠ u := by
  intro e he
  have h' := List.find?_eq_none.mp (Option.map_eq_none_iff.mp h) e he
  simpa using h'

theorem owner_give_of_ne {v : υ} (hne : v ≠ u) : owner v (give u i o) = owner v o := by
  unfold owner give
  rw [List.find?_cons_of_neg (by simpa using fun h => hne h.symm), List.find?_filter]
  refine congrArg (Option.map Prod.snd) (congrArg (List.find? · o) (funext fun e => ?_))
  by_cases he : e.1 = v
  · simp [he, hne]
  · simp [he]

theorem give_once (h : (o.map Prod.fst).Nodup) : ((give u i o).map Prod.fst).Nodup := by
  unfold give
  rw [List.map_cons, List.nodup_cons]
  refine ⟨?_, (List.filter_sublist.map Prod.fst).nodup h⟩
  intro hmem
  obtain ⟨e, he, hu⟩ := List.mem_map.mp hmem
  exact of_decide_eq_true (List.mem_filter.mp he).2 hu

theorem Seated.give {cands : Nat → List υ} (h : Seated cands o) (hu : u ∈ cands i) :
    Seated cands (give u i o) where
  once := give_once h.once
  fits e he := by
    rcases List.mem_cons.mp he with rfl | he
    · exact hu
    · exact h.fits e (List.mem_filter.mp he).1

/-- Giving a free item adds its new holder. -/
theorem give_free (h : owner u o = none) : (give u i o).map Prod.snd = i :: o.map Prod.snd := by
  unfold give
  rw [List.filter_eq_self.mpr fun e he => by simpa using owner_none h e he, List.map_cons]

/-- The entry of a taken item, and the entries of the others. -/
theorem perm_holder (hk : (o.map Prod.fst).Nodup) (h : owner u o = some i) :
    o.Perm ((u, i) :: o.filter fun e => e.1 ≠ u) := by
  induction o with
  | nil => simp [owner] at h
  | cons e o ih =>
    have hk' := List.nodup_cons.mp hk
    by_cases he : e.1 = u
    · -- The head is the entry of `u`; no other entry of the list is.
      have hi : e.2 = i := by simpa [owner, he] using h
      have hrest : o.filter (fun x => x.1 ≠ u) = o := by
        refine List.filter_eq_self.mpr fun x hx => ?_
        have hne : x.1 ≠ u := fun hxu => hk'.1 (he.trans hxu.symm ▸ List.mem_map_of_mem hx)
        simpa using hne
      rw [List.filter_cons_of_neg (by simp [he]), hrest, ← he, ← hi]
    · have hown : owner u o = some i := by simpa [owner, he] using h
      rw [List.filter_cons_of_pos (by simp [he])]
      exact ((ih hk'.2 hown).cons e).trans (List.Perm.swap _ _ _)

/-- Once `old` has another seat, giving its item to `i` adds `i` to the holders of before. -/
theorem give_taken {holders : List Nat} {old : Nat} (hk : (o.map Prod.fst).Nodup)
    (h : owner u o = some old) (hh : (o.map Prod.snd).Perm (old :: holders)) :
    ((give u i o).map Prod.snd).Perm (i :: holders) := by
  have hentry : (o.map Prod.snd).Perm (old :: (o.filter fun e => e.1 ≠ u).map Prod.snd) :=
    (perm_holder hk h).map Prod.snd
  exact ((hentry.symm.trans hh).cons_inv).cons i

end Give

/-! ### One attempt -/

/-- What a successful attempt to seat `slot` did. -/
structure Placed (cands : Nat → List υ) (o : Owners υ) (seen : List υ) (slot : Nat)
    (o' : Owners υ) : Prop where
  seated : Seated cands o'
  holders : (o'.map Prod.snd).Perm (slot :: o.map Prod.snd)
  kept : ∀ u ∈ seen, owner u o' = owner u o

/-- What an attempt to seat `slot` does. It forgets nothing it has looked at. -/
structure Tried (cands : Nat → List υ) (o : Owners υ) (slot : Nat) (seen : List υ)
    (r : List υ × Option (Owners υ)) : Prop where
  mono : seen ⊆ r.1
  placed : ∀ o', r.2 = some o' → Seated cands o → Placed cands o seen slot o'

variable {move : Nat → List υ → List υ × Option (Owners υ)} {slot : Nat} {us items : List υ}
  {slots : List Nat} {cands : Nat → List υ} {o : Owners υ}

/-- `seat` seats its slot if `move` does. -/
theorem seat_tried (hmove : ∀ old seen, Tried cands o old seen (move old seen))
    (hus : us ⊆ cands slot) (seen : List υ) :
    Tried cands o slot seen (seat move slot o us seen) := by
  induction us generalizing seen with
  | nil => exact ⟨List.Subset.refl _, nofun⟩
  | cons u us ih =>
    have hu : u ∈ cands slot := hus List.mem_cons_self
    have ih' := ih fun v hv => hus (List.mem_cons_of_mem u hv)
    by_cases hin : u ∈ seen
    · rw [seat, if_pos hin]
      exact ih' seen
    · have hkept : ∀ o', ∀ v ∈ seen, owner v (give u slot o') = owner v o' := fun o' v hv =>
        owner_give_of_ne fun e => hin (e ▸ hv)
      rw [seat, if_neg hin]
      cases hown : owner u o with
      | none =>
        -- The item is free.
        refine ⟨List.subset_cons_self u seen, fun o' h ho => ?_⟩
        cases h
        exact ⟨ho.give hu, by rw [give_free hown], hkept o⟩
      | some old =>
        have hm := hmove old (u :: seen)
        simp only
        cases hr : move old (u :: seen) with
        | mk seen₁ r =>
          rw [hr] at hm
          have hsub : seen ⊆ seen₁ := fun v hv => hm.mono (List.mem_cons_of_mem u hv)
          cases r with
          | none =>
            refine ⟨List.Subset.trans hsub (ih' seen₁).mono, fun o' h ho => ?_⟩
            have hp := (ih' seen₁).placed o' h ho
            exact ⟨hp.seated, hp.holders, fun v hv => hp.kept v (hsub hv)⟩
          | some o₁ =>
            -- The holder has moved. The attempt has seen `u`, so the entry of `u` is as it was.
            refine ⟨hsub, fun o' h ho => ?_⟩
            cases h
            have hp := hm.placed o₁ rfl ho
            have hown₁ : owner u o₁ = some old := (hp.kept u List.mem_cons_self).trans hown
            refine ⟨hp.seated.give hu, give_taken hp.seated.once hown₁ hp.holders, fun v hv => ?_⟩
            rw [hkept o₁ v hv]
            exact hp.kept v (List.mem_cons_of_mem u hv)

/-- **A successful attempt seats its slot and unseats none.** -/
theorem place_tried (fuel : Nat) :
    ∀ slot seen, Tried cands o slot seen (place cands o fuel slot seen) := by
  induction fuel with
  | zero =>
    intro slot seen
    exact ⟨List.Subset.refl _, nofun⟩
  | succ fuel ih =>
    intro slot seen
    exact seat_tried ih (List.Subset.refl _) seen

/-- **Every slot of the list ends with exactly one item of its own.** -/
theorem seatAll_seated {fuel : Nat} {o' : Owners υ} (ho : Seated cands o)
    (h : seatAll cands fuel slots o = some o') :
    Seated cands o' ∧ (o'.map Prod.snd).Perm (slots ++ o.map Prod.snd) := by
  induction slots generalizing o with
  | nil =>
    simp only [seatAll, Option.some.injEq] at h
    subst h
    exact ⟨ho, List.Perm.refl _⟩
  | cons i is ih =>
    cases hp : place cands o fuel i [] with
    | mk seen r =>
      cases r with
      | none => simp [seatAll, hp] at h
      | some o₁ =>
        simp only [seatAll, hp] at h
        have hplaced := (place_tried fuel i []).placed o₁ (by rw [hp]) ho
        obtain ⟨hs, hperm⟩ := ih hplaced.seated h
        refine ⟨hs, hperm.trans ?_⟩
        exact (hplaced.holders.append_left is).trans List.perm_middle

/-! ### The bound on a path -/

/-- The items among `items` that an attempt has not looked at. -/
def unseen (items seen : List υ) : Nat := (items.toFinset \ seen.toFinset).card

theorem unseen_mono (items : List υ) {seen seen' : List υ} (h : seen ⊆ seen') :
    unseen items seen' ≤ unseen items seen := by
  refine Finset.card_le_card (Finset.sdiff_subset_sdiff (Finset.Subset.refl _) ?_)
  intro v hv
  exact List.mem_toFinset.mpr (h (List.mem_toFinset.mp hv))

theorem unseen_cons_lt {seen : List υ} {u : υ} (hu : u ∈ items) (hn : u ∉ seen) :
    unseen items (u :: seen) < unseen items seen := by
  refine Finset.card_lt_card (Finset.ssubset_iff_of_subset ?_ |>.mpr ⟨u, ?_, ?_⟩)
  · refine Finset.sdiff_subset_sdiff (Finset.Subset.refl _) fun v hv => ?_
    exact List.mem_toFinset.mpr (List.mem_cons_of_mem u (List.mem_toFinset.mp hv))
  · simp [hu, hn]
  · simp

/-! ### The recursion without a bound -/

/-- A finished search of `slot` among the items left, with what it has looked at and the
owners it leaves. -/
inductive Search (cands : Nat → List υ) (o : Owners υ) :
    Nat → List υ → List υ → List υ × Option (Owners υ) → Prop
  | exhausted (slot : Nat) (seen : List υ) : Search cands o slot [] seen (seen, none)
  | skip {slot : Nat} {u : υ} {us seen : List υ} {r : List υ × Option (Owners υ)} (hin : u ∈ seen)
      (rest : Search cands o slot us seen r) : Search cands o slot (u :: us) seen r
  | free {slot : Nat} {u : υ} (us : List υ) {seen : List υ} (hin : u ∉ seen)
    (hfree : owner u o = none) :
      Search cands o slot (u :: us) seen (u :: seen, some (give u slot o))
  | moved {slot old : Nat} {u : υ} (us : List υ) {seen seen' : List υ} {o' : Owners υ}
    (hin : u ∉ seen)
      (hold : owner u o = some old)
      (inner : Search cands o old (cands old) (u :: seen) (seen', some o')) :
      Search cands o slot (u :: us) seen (seen', some (give u slot o'))
  | stayed {slot old : Nat} {u : υ} {us seen seen' : List υ} {r : List υ × Option (Owners υ)}
    (hin : u ∉ seen)
      (hold : owner u o = some old)
      (inner : Search cands o old (cands old) (u :: seen) (seen', none))
      (rest : Search cands o slot us seen' r) : Search cands o slot (u :: us) seen r

/-- A loop over candidates is a search, if the calls it makes are. -/
theorem seat_search {bound : Nat}
    (hmove : ∀ old seen, unseen items seen < bound →
      Search cands o old (cands old) seen (move old seen))
    (hseen : ∀ old seen, seen ⊆ (move old seen).1) (hus : us ⊆ items) {seen : List υ}
    (hb : unseen items seen ≤ bound) :
    Search cands o slot us seen (seat move slot o us seen) := by
  induction us generalizing seen with
  | nil => exact .exhausted slot seen
  | cons u us ih =>
    have ih' := @ih fun v hv => hus (List.mem_cons_of_mem u hv)
    by_cases hin : u ∈ seen
    · rw [seat, if_pos hin]
      exact .skip hin (ih' hb)
    · have hlt := unseen_cons_lt (hus List.mem_cons_self) hin
      rw [seat, if_neg hin]
      cases hown : owner u o with
      | none => exact .free us hin hown
      | some old =>
        have hinner := hmove old (u :: seen) (by omega)
        have hle := unseen_mono items (hseen old (u :: seen))
        simp only
        cases hm : move old (u :: seen) with
        | mk seen₁ r₁ =>
          rw [hm] at hinner hle
          cases r₁ with
          | some o₁ => exact .moved us hin hown hinner
          | none => exact .stayed hin hown hinner (ih' (hle.trans (by omega)))

/-- **The search ends,** and its result is the one of `place`. -/
theorem place_search (hitems : ∀ i, cands i ⊆ items) (fuel : Nat) :
    ∀ (slot : Nat) (seen : List υ), unseen items seen < fuel →
      Search cands o slot (cands slot) seen (place cands o fuel slot seen) := by
  induction fuel with
  | zero =>
    intro slot seen h
    omega
  | succ fuel ih =>
    intro slot seen h
    exact seat_search ih (fun old seen => (place_tried fuel old seen).mono) (hitems slot) (by omega)

/-- A search has one result. -/
theorem Search.unique {seen : List υ} {r r' : List υ × Option (Owners υ)}
    (h : Search cands o slot us seen r) (h' : Search cands o slot us seen r') : r = r' := by
  induction h generalizing r' with
  | exhausted slot seen =>
    cases h'
    rfl
  | skip hin rest ih =>
    cases h' with
    | skip _ rest' => exact ih rest'
    | free _ hin' _ | moved _ hin' _ _ | stayed hin' _ _ _ => exact absurd hin hin'
  | free us hin hfree =>
    cases h' with
    | skip hin' _ => exact absurd hin' hin
    | free _ _ _ => rfl
    | moved _ _ hold _ | stayed _ hold _ _ => simp [hfree] at hold
  | moved us hin hold inner ih =>
    cases h' with
    | skip hin' _ => exact absurd hin' hin
    | free _ _ hfree => simp [hold] at hfree
    | moved _ _ hold' inner' =>
      obtain rfl := Option.some.inj (hold.symm.trans hold')
      have he := ih inner'
      simp only [Prod.mk.injEq, Option.some.injEq] at he
      rw [he.1, he.2]
    | stayed _ hold' inner' _ =>
      obtain rfl := Option.some.inj (hold.symm.trans hold')
      exact absurd (ih inner') (by simp)
  | stayed hin hold inner rest ihinner ihrest =>
    cases h' with
    | skip hin' _ => exact absurd hin' hin
    | free _ _ hfree => simp [hold] at hfree
    | moved _ _ hold' inner' =>
      obtain rfl := Option.some.inj (hold.symm.trans hold')
      exact absurd (ihinner inner') (by simp)
    | stayed _ hold' inner' rest' =>
      obtain rfl := Option.some.inj (hold.symm.trans hold')
      have he := ihinner inner'
      simp only [Prod.mk.injEq, and_true] at he
      subst he
      exact ihrest rest'

/-! ### A failed attempt -/

/-- What a failed search leaves: `slot` and the holders of the items it newly looked at can
take only items that it has looked at. -/
structure Stuck (cands : Nat → List υ) (o : Owners υ) (us seen seen' : List υ) : Prop where
  wanted : us ⊆ seen'
  held : ∀ u ∈ seen', u ∈ seen ∨ ∃ old, owner u o = some old ∧ cands old ⊆ seen'
  mono : seen ⊆ seen'

theorem Search.stuck {seen : List υ} {r : List υ × Option (Owners υ)}
    (h : Search cands o slot us seen r) : r.2 = none → Stuck cands o us seen r.1 := by
  -- The induction is on the calls; a call that succeeds has nothing to show.
  induction h with
  | exhausted slot seen =>
    intro _
    exact ⟨List.nil_subset _, fun u hu => Or.inl hu, List.Subset.refl _⟩
  | skip hin rest ih =>
    intro hr
    have hs := ih hr
    exact ⟨List.cons_subset.mpr ⟨hs.mono hin, hs.wanted⟩, hs.held, hs.mono⟩
  | free us hin hfree | moved us hin hold inner ih =>
    intro hr
    cases hr
  | @stayed slot old u us seen seen' r hin hold inner rest ihinner ihrest =>
    intro hr
    have hi := ihinner rfl
    have hs := ihrest hr
    have hu : u ∈ r.1 := hs.mono (hi.mono List.mem_cons_self)
    refine ⟨List.cons_subset.mpr ⟨hu, hs.wanted⟩, ?_, ?_⟩
    · intro v hv
      rcases hs.held v hv with hv' | hv'
      · rcases hi.held v hv' with hv'' | ⟨w, hw, hsub⟩
        · -- The item whose holder did not move: the holder is stuck as well.
          rcases List.mem_cons.mp hv'' with rfl | hv''
          · exact Or.inr ⟨old, hold, List.Subset.trans hi.wanted hs.mono⟩
          · exact Or.inl hv''
        · exact Or.inr ⟨w, hw, List.Subset.trans hsub hs.mono⟩
      · exact Or.inr hv'
    · exact fun v hv => hs.mono (hi.mono (List.mem_cons_of_mem u hv))

/-- An assignment of an item to every slot. -/
structure Assigns (cands : Nat → List υ) (slots : List Nat) (f : Nat → υ) : Prop where
  fits : ∀ i ∈ slots, f i ∈ cands i
  apart : ∀ i ∈ slots, ∀ j ∈ slots, f i = f j → i = j

/-- Slots that are stuck are one more than the items they can take. -/
theorem Stuck.no_assignment {seen : List υ} {f : Nat → υ}
    (h : Stuck cands o (cands slot) [] seen) (hholders : (o.map Prod.snd).Nodup)
    (hslot : slot ∉ o.map Prod.snd) (hsub : slot :: o.map Prod.snd ⊆ slots) :
    ¬ Assigns cands slots f := by
  intro hf
  have hheld : ∀ u ∈ seen, ∃ old, (u, old) ∈ o ∧ owner u o = some old ∧ cands old ⊆ seen := by
    intro u hu
    rcases h.held u hu with hu' | ⟨old, hold, hc⟩
    · simp at hu'
    · exact ⟨old, owner_mem hold, hold, hc⟩
  -- The holders of the items, one for each.
  set holder : υ → Nat := fun u => (owner u o).getD 0 with hholder
  have hinj : Set.InjOn holder seen.toFinset := by
    intro u hu v hv he
    obtain ⟨i, hi, hui, -⟩ := hheld u (by simpa using hu)
    obtain ⟨j, hj, hvj, -⟩ := hheld v (by simpa using hv)
    simp only [hholder, hui, hvj, Option.getD_some] at he
    have hentry := List.inj_on_of_nodup_map hholders hi hj he
    exact (Prod.mk.inj hentry).1
  have hnew : slot ∉ seen.toFinset.image holder := by
    intro hin
    obtain ⟨u, hu, he⟩ := Finset.mem_image.mp hin
    obtain ⟨old, hold, hown, -⟩ := hheld u (by simpa using hu)
    simp only [hholder, hown, Option.getD_some] at he
    exact hslot (List.mem_map.mpr ⟨(u, old), hold, he⟩)
  have hcard : (insert slot (seen.toFinset.image holder)).card = seen.toFinset.card + 1 := by
    rw [Finset.card_insert_of_notMem hnew, Finset.card_image_of_injOn hinj]
  -- The assignment takes the slots into the items, one to one.
  have hmem : ∀ i ∈ insert slot (seen.toFinset.image holder), i ∈ slots ∧ cands i ⊆ seen := by
    intro i hi
    rcases Finset.mem_insert.mp hi with rfl | hi
    · exact ⟨hsub List.mem_cons_self, h.wanted⟩
    · obtain ⟨u, hu, he⟩ := Finset.mem_image.mp hi
      obtain ⟨old, hold, hown, hc⟩ := hheld u (by simpa using hu)
      simp only [hholder, hown, Option.getD_some] at he
      subst he
      exact ⟨hsub (List.mem_cons_of_mem slot (List.mem_map.mpr ⟨(u, old), hold, rfl⟩)), hc⟩
  have hle : (insert slot (seen.toFinset.image holder)).card ≤ seen.toFinset.card := by
    refine Finset.card_le_card_of_injOn f (fun i hi => ?_) (fun i hi j hj he => ?_)
    · have hi' := hmem i hi
      simpa using hi'.2 (hf.fits i hi'.1)
    · exact hf.apart i (hmem i hi).1 j (hmem j hj).1 he
  omega

/-- **When `seatAll` gives up there is no assignment** of the slots it was to seat and those
that were seated before. -/
theorem seatAll_complete (hitems : ∀ i, cands i ⊆ items) {fuel : Nat} (hf : items.length < fuel)
    (ho : Seated cands o) (hn : (slots ++ o.map Prod.snd).Nodup)
    (h : seatAll cands fuel slots o = none) (f : Nat → υ) :
    ¬ Assigns cands (slots ++ o.map Prod.snd) f := by
  induction slots generalizing o with
  | nil => simp [seatAll] at h
  | cons i is ih =>
    have hle : unseen items [] ≤ items.length := by
      simpa [unseen] using List.toFinset_card_le items
    cases hp : place cands o fuel i [] with
    | mk seen r =>
      cases r with
      | none =>
        have hsearch := place_search (o := o) hitems fuel i [] (by omega)
        rw [hp] at hsearch
        have hn' := List.nodup_cons.mp hn
        refine (hsearch.stuck rfl).no_assignment (List.nodup_append.mp hn'.2).2.1 ?_ ?_
        · exact fun hin => hn'.1 (List.mem_append_right is hin)
        · exact List.cons_subset.mpr
            ⟨List.mem_cons_self, fun j hj => List.mem_append_right (i :: is) hj⟩
      | some o₁ =>
        -- The seated slots are those of before and `i`, so the assignment is one of them too.
        simp only [seatAll, hp] at h
        have hplaced := (place_tried fuel i []).placed o₁ (by rw [hp]) ho
        have hperm : (is ++ o₁.map Prod.snd).Perm (i :: is ++ o.map Prod.snd) :=
          (hplaced.holders.append_left is).trans List.perm_middle
        intro hassigns
        refine ih hplaced.seated (hperm.nodup_iff.mpr hn) h ⟨?_, ?_⟩
        · exact fun j hj => hassigns.fits j (hperm.mem_iff.mp hj)
        · exact fun j hj k hk => hassigns.apart j (hperm.mem_iff.mp hj) k (hperm.mem_iff.mp hk)

end Hf2l.Lib.Matching
