import Hf2l.Exchange.Service.Steps
import Mathlib.Data.List.Dedup

/-!
# `Hf2l.Exchange.FedAvg.Selection`: the inputs of a round

What the profile `fedavg.v1` checks when `main` is created, acquired and moved, as facts about
rows. An acquisition of `main` freezes updates on the current target, one for a participant
(`Selected`). The first target has no provenance, and a later one names the target it replaces
as its base and at least two of the frozen updates as its inputs.
-/

set_option autoImplicit false

namespace Hf2l.Exchange.FedAvg

open Lib Lib.Checked
open Service

/-! ### The selection loop -/

section Loop

/-- What is kept of the entries: a participant has one, and each is an update of its
participant. -/
structure Entries (records : List Descriptor) (selected : List (String × Descriptor)) : Prop where
  keyed : Table.Keyed (fun e : String × Descriptor => e.1) selected
  mem : ∀ e ∈ selected, e.2 ∈ records ∧ participantText e.2.creatorBindings = some e.1

variable {p : String} {record : Descriptor} {selected : List (String × Descriptor)}

/-- The entry of a participant is made, or replaced if it is older. -/
theorem keepLatest_cases (h : Table.Keyed (fun e : String × Descriptor => e.1) selected) :
    ((∀ e ∈ selected, e.1 ≠ p) ∧ keepLatest p record selected = selected ++ [(p, record)]) ∨
      ∃ previous, (p, previous) ∈ selected ∧ keepLatest p record selected =
        if later record previous then Table.put (·.1) (p, record) selected else selected := by
  induction selected with
  | nil => exact .inl ⟨fun e he => absurd he List.not_mem_nil, rfl⟩
  | cons x rest ih =>
    obtain ⟨q, previous⟩ := x
    obtain ⟨hq, hrest⟩ := List.nodup_cons.mp h
    unfold keepLatest
    by_cases he : q = p
    · subst he
      have hsame : Table.put (·.1) (q, record) rest = rest :=
        Table.put_eq_self fun e hmem heq => hq (List.mem_map.mpr ⟨e, hmem, heq⟩)
      refine .inr ⟨previous, List.mem_cons_self, ?_⟩
      rw [if_pos rfl]
      split_ifs
      · simpa [Table.put] using hsame.symm
      · rfl
    · rw [if_neg he]
      rcases ih hrest with ⟨hnew, hcons⟩ | ⟨old, hold, hcons⟩
      · refine .inl ⟨fun e hmem => ?_, by rw [hcons, List.cons_append]⟩
        rcases List.mem_cons.mp hmem with rfl | hmem
        · exact he
        · exact hnew e hmem
      · refine .inr ⟨old, List.mem_cons_of_mem _ hold, ?_⟩
        rw [hcons]
        split_ifs
        · simp [Table.put, he]
        · rfl

theorem Entries.step {records : List Descriptor} (base : Id) (hr : record ∈ records)
    (h : Entries records selected) :
    Entries records (selectStep base selected record) := by
  unfold selectStep
  split_ifs
  · exact h
  · exact h
  · split
    · rename_i p hp
      split_ifs
      · exact h
      · rcases keepLatest_cases h.keyed with ⟨hnew, he⟩ | ⟨previous, hprevious, he⟩
        · rw [he]
          refine ⟨h.keyed.concat hnew, fun e he => ?_⟩
          rcases List.mem_append.mp he with he | he
          · exact h.mem e he
          · exact List.mem_singleton.mp he ▸ ⟨hr, hp⟩
        · rw [he]
          split_ifs
          · refine ⟨h.keyed.put _, fun e he => ?_⟩
            rcases Table.of_mem_put he with ⟨he, -⟩ | rfl
            · exact h.mem e he
            · exact ⟨hr, hp⟩
          · exact h
    · exact h

theorem entries_foldl {all : List Descriptor} (base : Id) {records : List Descriptor}
    (hsub : ∀ x ∈ records, x ∈ all) (h : Entries all selected) :
    Entries all (records.foldl (selectStep base) selected) := by
  induction records generalizing selected with
  | nil => exact h
  | cons x rest ih =>
    exact ih (fun y hy => hsub y (List.mem_cons_of_mem x hy))
      (h.step base (hsub x List.mem_cons_self))

/-- **What is selected is among the records, and a participant has one entry.** -/
theorem selectInputs_spec (records : List Descriptor) (base : Id) :
    (∀ x ∈ selectInputs records base, x ∈ records ∧
      ∃ p, participantText x.creatorBindings = some p) ∧ ∀ x ∈ selectInputs records base,
      ∀ y ∈ selectInputs records base,
      participantText x.creatorBindings = participantText y.creatorBindings → x = y := by
  have hentries : Entries records (records.foldl (selectStep base) []) :=
    entries_foldl base (fun _ h => h) ⟨List.nodup_nil, fun _ h => absurd h List.not_mem_nil⟩
  have hmem : ∀ x ∈ selectInputs records base, ∃ e ∈ records.foldl (selectStep base) [],
      e.2 = x := by
    intro x hx
    obtain ⟨e, he, rfl⟩ := List.mem_map.mp hx
    exact ⟨e, (List.mem_insertionSort _).mp he, rfl⟩
  refine ⟨fun x hx => ?_, fun x hx y hy he => ?_⟩
  · obtain ⟨e, he, rfl⟩ := hmem x hx
    exact ⟨(hentries.mem e he).1, e.1, (hentries.mem e he).2⟩
  · obtain ⟨e, he₁, rfl⟩ := hmem x hx
    obtain ⟨e', he₂, rfl⟩ := hmem y hy
    rw [(hentries.mem e he₁).2, (hentries.mem e' he₂).2, Option.some.injEq] at he
    rw [hentries.keyed.eq_of_key_eq he₁ he₂ he]

end Loop

/-! ### The inputs an acquisition freezes -/

/-- The records are published updates on the base, of participants that differ. -/
structure Selected (db : Db) (base : Id) (ids : List Id) : Prop where
  updates : ∀ id ∈ ids, ∃ r ∈ db.ledger.records, r.id = id ∧ r.kind = "training.update" ∧
    r.state = .published ∧ r.baseRecordId = some base ∧
    (participantText r.creatorBindings).isSome = true
  apart : ∀ r ∈ db.ledger.records, ∀ r' ∈ db.ledger.records, r.id ∈ ids → r'.id ∈ ids →
    participantText r.creatorBindings = participantText r'.creatorBindings → r.id = r'.id

variable {db : Db}

theorem Selected.of_subset {base : Id} {ids ids' : List Id} (h : Selected db base ids)
    (hsub : ids' ⊆ ids) :
    Selected db base ids' where
  updates id hid := h.updates id (hsub hid)
  apart r hr r' hr' hid hid' he := h.apart r hr r' hr' (hsub hid) (hsub hid') he

/-- The identifiers that are chosen are selected ones. -/
theorem selectIds_ok {reference : Reference} {ids chosen : List Id}
    (hmain : reference.name = "main") (h : selectIds db profile reference ids = .ok chosen) :
    ∃ eligible, eligible.Sublist
      (candidates db ⟨"training.update", reference.recordId, minimumParticipants,
        "insufficient_participants"⟩) ∧
      ∀ id ∈ chosen, ∃ x ∈ selectInputs eligible reference.recordId, x.id = id := by
  simp only [selectIds, profile, selectionSpec, hmain, if_true, block_ok] at h
  obtain ⟨hrefuse, -, rfl⟩ := h
  have hasked := refuse_ok.mp hrefuse
  simp only [not_and, ne_eq, Bool.not_eq_false, List.all_eq_true] at hasked
  refine ⟨(candidates db _).filter fun d => inputEligible d (db.member d.creator),
    List.filter_sublist,
    fun id hid => ?_⟩
  split_ifs at hid with hnil
  · obtain ⟨x, hx, rfl⟩ := List.mem_map.mp (List.mem_dedup.mp ((List.mem_insertionSort _).mp hid))
    exact ⟨x, hx, rfl⟩
  · obtain ⟨x, hx, rfl⟩ :=
      List.mem_map.mp (List.mem_dedup.mp (of_decide_eq_true (hasked hnil id hid)))
    exact ⟨x, hx, rfl⟩

/-- **An acquisition of `main` freezes updates on its target, one for a participant.** -/
theorem selected_of_selectIds (hk : Table.Keyed Record.id db.ledger.records) {reference : Reference}
    {ids chosen : List Id} (hmain : reference.name = "main")
    (h : selectIds db profile reference ids = .ok chosen) :
    Selected db reference.recordId chosen := by
  obtain ⟨eligible, hsub, hchosen⟩ := selectIds_ok hmain h
  obtain ⟨hmem, hone⟩ := selectInputs_spec eligible reference.recordId
  -- The row behind a chosen identifier.
  have hrow : ∀ id ∈ chosen, ∃ r ∈ db.ledger.records, r.id = id ∧ r.kind = "training.update" ∧
      r.state = .published ∧ r.baseRecordId = some reference.recordId ∧
      r.descriptor ∈ selectInputs eligible reference.recordId := by
    intro id hid
    obtain ⟨x, hx, rfl⟩ := hchosen id hid
    obtain ⟨r, hr, rfl⟩ := List.mem_map.mp (hsub.subset (hmem x hx).1)
    obtain ⟨hr, hprops⟩ := List.mem_filter.mp hr
    simp only [decide_eq_true_eq] at hprops
    exact ⟨r, hr, rfl, hprops.1, hprops.2.1, hprops.2.2, hx⟩
  refine ⟨fun id hid => ?_, fun r hr r' hr' hid hid' he => ?_⟩
  · obtain ⟨r, hr, hrid, hkind, hstate, hbase, hx⟩ := hrow id hid
    obtain ⟨-, p, hp⟩ := hmem _ hx
    have hp : participantText r.creatorBindings = some p := hp
    exact ⟨r, hr, hrid, hkind, hstate, hbase, by rw [hp]; rfl⟩
  · obtain ⟨s, hs, hsid, -, -, -, hx⟩ := hrow _ hid
    obtain ⟨s', hs', hsid', -, -, -, hx'⟩ := hrow _ hid'
    rw [hk.eq_of_key_eq hs hr hsid] at hx
    rw [hk.eq_of_key_eq hs' hr' hsid'] at hx'
    exact congrArg Descriptor.id (hone _ hx _ hx' he)

/-! ### The targets of `main` -/

/-- The record says that it was made from nothing. -/
structure Initial (r : Record) : Prop where
  kind : r.kind = "model.global"
  base : r.metadata.get "base_record_id" = none
  inputs : (declaredInputs r.metadata).strings? = some []

/-- The record says that it was made on the base from these inputs. -/
structure Aggregate (baseId : Id) (ids : List Id) (r : Record) : Prop where
  kind : r.kind = "model.global"
  base : baseText r.metadata = some baseId
  inputs : (declaredInputs r.metadata).strings? = some ids
  nodup : ids.Nodup
  minimum : 2 ≤ ids.length

theorem initial_of_validateReference {r : Record}
    (h : validateReference "main" r.descriptor [] none = .ok ()) :
    Initial r := by
  simp only [validateReference, validateReferenceWith, ne_eq, not_true_eq_false, if_false, block_ok,
    refuse_ok, found_ok, not_not, not_or, Bool.not_eq_true, Option.isSome_eq_false_iff,
    Option.isNone_iff_eq_none] at h
  obtain ⟨hkind, declared, hinputs, hbase, rfl⟩ := h
  exact ⟨hkind, hbase, hinputs⟩

/-- Without an acquisition `main` does not move. -/
theorem not_validateReference_nil (r : Descriptor) (base : Id) :
    validateReference "main" r [] (some base) ≠ .ok () := by
  intro h
  simp only [validateReference, validateReferenceWith, ne_eq, not_true_eq_false, if_false, block_ok,
    refuse_ok, found_ok] at h
  obtain ⟨-, declared, -, hnil, -⟩ := h
  exact hnil

/-- Each declared input, looked up. -/
theorem mapM_find {frozen : List Descriptor} {declared : List Id} {used : List Descriptor}
    (h : declared.mapM (fun rid => frozen.find? (·.id = rid)) = some used) :
    used.length = declared.length ∧ ∀ id ∈ declared, ∃ x ∈ frozen, x.id = id := by
  induction declared generalizing used with
  | nil =>
    simp only [List.mapM_nil, Option.pure_def, Option.some.injEq] at h
    simp [← h]
  | cons rid rest ih =>
    simp only [List.mapM_cons, Option.bind_eq_bind, Option.bind_eq_some_iff, Option.pure_def,
      Option.some.injEq] at h
    obtain ⟨x, hx, more, hmore, rfl⟩ := h
    obtain ⟨hlen, hall⟩ := ih hmore
    refine ⟨by rw [List.length_cons, List.length_cons, hlen], fun id hid => ?_⟩
    rcases List.mem_cons.mp hid with rfl | hid
    · exact ⟨x, List.mem_of_find?_eq_some hx, by simpa using List.find?_some hx⟩
    · exact hall id hid

/-- **A completed acquisition of `main` moves it to an aggregate of inputs it froze.** -/
theorem aggregate_of_complete {member : Member} {p : Principal} {c : Coordination} {r : Record}
    {used : List Descriptor} {base : Id} (hmain : c.referenceName = "main")
    (hused : usedInputs db profile member p c r = .ok used)
    (hval : profile.validateReference c.referenceName r.descriptor used (some base) = .ok ()) :
    ∃ inputs, Aggregate base inputs r ∧ inputs ⊆ db.inputIds c.id := by
  rw [hmain] at hval
  simp only [usedInputs, block_ok] at hused
  obtain ⟨rows, hrows, x, hcompletion, -, -, rfl⟩ := hused
  rw [hmain] at hcompletion
  simp only [profile, completionInputs, ne_eq, not_true_eq_false, if_false, block_ok, found_ok,
    refuse_ok, not_or, not_not] at hcompletion
  obtain ⟨declared, hdeclared, hnodup, found, hfound, ⟨hmin, -⟩, rfl⟩ := hcompletion
  simp only [profile, validateReference, validateReferenceWith, ne_eq, not_true_eq_false, if_false,
    block_ok, refuse_ok, found_ok, not_or, not_not] at hval
  obtain ⟨hkind, -, -, -, -, -, hbase, -⟩ := hval
  obtain ⟨hlen, hall⟩ := mapM_find hfound
  refine ⟨declared, ⟨hkind, hbase, hdeclared, hnodup, ?_⟩, fun id hid => ?_⟩
  · unfold minimumParticipants at hmin
    omega
  · obtain ⟨x, hx, rfl⟩ := hall id hid
    obtain ⟨row, hrow, rfl⟩ := List.mem_map.mp hx
    rw [← (mapM_record hrows).1]
    exact List.mem_map_of_mem hrow

end Hf2l.Exchange.FedAvg
