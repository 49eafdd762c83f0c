import Hf2l.Exchange.Ledger.Accounts
import Hf2l.Exchange.Ledger.Evolution

/-!
# `Hf2l.Exchange.Ledger.Stranding`: charges that nobody can settle

An attachment is charged until the last of its attempts is cleaned, so one that is charged and
has no attempt left to clean is charged for ever. `Covered` says that there is none. Changes
keep it; what can break it is stopping a record, and exactly when one of its attachments is
`Stuck`: it will be charged, and its attempts are already settled (`Effect.covered_iff`).
-/

set_option autoImplicit false

namespace Hf2l.Exchange

open Lib

namespace Ledger

variable (rule : ReleaseRule) (l : Ledger)

/-- Some attempt of the attachment still has to be cleaned. -/
def Open (blobId : Id) : Prop := ∃ a ∈ l.attempts, a.blobId = blobId ∧ rule.settled a = false

/-- Every attachment that is charged can still be settled. -/
def Covered : Prop := ∀ b ∈ l.blobs, b.pendingDeletion = true → l.Open rule b.id

/-- Stopping its record would charge the attachment, and nothing is left to clean. -/
def Stuck (b : Blob) : Prop := rule.charges (l.attemptsOf b.id) b = true ∧ ¬ l.Open rule b.id

/-- The record is live in `l` and stopped in `l'`. -/
def Stops (l' : Ledger) (r : Record) : Prop :=
  r ∈ l.records ∧ r.state.terminal = false ∧ ∃ r' ∈ l'.records, r'.id = r.id ∧
    r'.state.terminal = true

variable {rule l}

variable {blobId : Id}

theorem open_iff_attemptsOf :
    l.Open rule blobId ↔ ∃ a ∈ l.attemptsOf blobId, rule.settled a = false := by
  constructor
  · rintro ⟨a, ha, hb, hs⟩
    exact ⟨a, List.mem_filter.mpr ⟨ha, by simpa using hb⟩, hs⟩
  · rintro ⟨a, ha, hs⟩
    obtain ⟨ha, hb⟩ := List.mem_filter.mp ha
    exact ⟨a, ha, of_decide_eq_true hb, hs⟩

/-- An attempt that is written stays open if it was. -/
theorem Open.putAttempt (h : l.Open rule blobId) (hk : Table.Keyed TransferAttempt.id l.attempts)
    {a a' : TransferAttempt} (ha : a ∈ l.attempts) (hid : a'.id = a.id)
    (hblob : a'.blobId = a.blobId) (hs : rule.settled a = false → rule.settled a' = false) :
    (l.putAttempt a').Open rule blobId := by
  obtain ⟨x, hx, hxb, hxs⟩ := h
  by_cases hxa : x.id = a.id
  · have he : x = a := hk.eq_of_key_eq hx ha hxa
    exact ⟨a', Table.mem_put_self ha hid, hblob.trans (he ▸ hxb), hs (he ▸ hxs)⟩
  · exact ⟨x, Table.mem_put_of_ne hx (by rwa [hid]), hxb, hxs⟩

/-- A write of one attempt keeps the attempts of the other attachments. -/
theorem attemptsOf_putAttempt (h : l.Sound) {a a' : TransferAttempt} (ha : a ∈ l.attempts)
    (hid : a'.id = a.id) (hblob : a'.blobId = a.blobId) (hne : a.blobId ≠ blobId) :
    (l.putAttempt a').attemptsOf blobId = l.attemptsOf blobId := by
  refine Table.filter_map_eq (fun x hx => ?_) fun x hx hb => ?_
  · by_cases hxa : x.id = a'.id
    · rw [if_pos hxa, hblob, h.attempts.eq_of_key_eq hx ha (hxa.trans hid)]
    · rw [if_neg hxa]
  · refine if_neg fun hxa => hne ?_
    rw [← h.attempts.eq_of_key_eq hx ha (hxa.trans hid)]
    exact of_decide_eq_true hb

end Ledger

/-! ### Changes keep the cover -/

variable {l l' : Ledger} {w : Allowance}

/-- An attempt in a state other than `cleaned` is open. -/
theorem ReleaseRule.Lawful.open_of_state {rule : ReleaseRule} (hrule : rule.Lawful)
    {a : TransferAttempt} (hs : a.state ≠ .cleaned) : rule.settled a = false := by
  by_contra h
  exact hs (hrule.settled_state a (by simpa using h))

namespace Ledger.Covered

variable {w : Allowance} {l : Ledger}

section
variable (h : l.Covered w.rule)
include h

/-- The cover reads which attachments are charged and which attempts are open. -/
theorem of_open {l' : Ledger} (hopen : ∀ id, l.Open w.rule id → l'.Open w.rule id)
    (hblobs : ∀ b' ∈ l'.blobs, b'.pendingDeletion = true → l'.Open w.rule b'.id ∨
      ∃ b ∈ l.blobs, b.id = b'.id ∧ b.pendingDeletion = true) : l'.Covered w.rule := by
  intro b' hb' hp
  rcases hblobs b' hb' hp with ho | ⟨b, hb, hid, hbp⟩
  · exact ho
  · exact hid ▸ hopen b.id (h b hb hbp)

/-- Attachments are charged as before, but for one that is written. -/
theorem of_put {l' : Ledger} (hopen : ∀ id, l.Open w.rule id → l'.Open w.rule id) {c : Blob}
    (hblobs : l'.blobs = Table.put Blob.id c l.blobs)
    (hc : c.pendingDeletion = true → l'.Open w.rule c.id ∨ ∃ b ∈ l.blobs, b.id = c.id ∧
      b.pendingDeletion = true) :
    l'.Covered w.rule := by
  refine h.of_open hopen fun x hx hp => ?_
  rcases Table.of_mem_put (hblobs ▸ hx) with ⟨hx, -⟩ | rfl
  · exact Or.inr ⟨x, hx, rfl, hp⟩
  · exact hc hp

theorem remove (hs : l.Sound) (r : Record) : (l.removeRecord r).Covered w.rule := by
  intro b hb hp
  obtain ⟨hb, hne⟩ := List.mem_filter.mp hb
  obtain ⟨a, ha, hab, hset⟩ := h b hb hp
  refine ⟨a, List.mem_filter.mpr ⟨ha, ?_⟩, hab, hset⟩
  -- The attempts of an attachment that stays are kept.
  refine decide_eq_true fun hmem => ?_
  obtain ⟨c, hc, hca⟩ := List.mem_map.mp hmem
  obtain ⟨hcl, hcr⟩ := List.mem_filter.mp hc
  have he : c = b := hs.blobs.eq_of_key_eq hcl hb (hca.trans hab)
  exact of_decide_eq_true hne (he ▸ of_decide_eq_true hcr)

theorem clean (hs : l.Sound) {b : Blob} {a a' : TransferAttempt}
    (hb : b ∈ l.blobs) (ha : a ∈ l.attempts) (hab : a.blobId = b.id)
    (ha' : a'.work = a.work.ended .cleaned) : (w.rule.cleanAttempt l b a').Covered w.rule := by
  obtain ⟨hid, hblob⟩ := Work.keys_of_eq (a := a) ha' ⟨rfl, rfl⟩
  -- Attachments other than `b` keep their attempts.
  have hother : ∀ id, id ≠ b.id → l.Open w.rule id → (l.putAttempt a').Open w.rule id := by
    intro id hne ho
    rw [Ledger.open_iff_attemptsOf] at ho ⊢
    rwa [Ledger.attemptsOf_putAttempt hs ha hid hblob fun e => hne (e.symm.trans hab)]
  unfold ReleaseRule.cleanAttempt
  split_ifs with hall
  · intro x hx hp
    rcases Table.of_mem_put hx with ⟨hx, hne⟩ | rfl
    · exact hother x.id hne (h x hx hp)
    · simp [Blob.discharged] at hp
  · intro x hx hp
    by_cases hxb : x.id = b.id
    · have he : x = b := hs.blobs.eq_of_key_eq hx hb hxb
      rw [he] at hp ⊢
      rw [Ledger.open_iff_attemptsOf]
      by_contra hnone
      refine hall ⟨List.all_eq_true.mpr fun y hy => ?_, hp⟩
      by_contra hy'
      exact hnone ⟨y, hy, by simpa using hy'⟩
    · exact hother x.id hxb (h x hx hp)

end

end Ledger.Covered

theorem Change.covered (hrule : w.rule.Lawful) (hm : w.matched) (hf : ∀ id, ¬ w.forget id)
    (hs : l.Sound) (h : l.Covered w.rule) (hc : Change w l l') : l'.Covered w.rule := by
  -- A write of one attempt that is open afterwards, or as settled as before.
  have hput : ∀ a a' : TransferAttempt, a ∈ l.attempts → a'.id = a.id → a'.blobId = a.blobId →
      (w.rule.settled a = false → w.rule.settled a' = false) →
      ∀ id, l.Open w.rule id → (l.putAttempt a').Open w.rule id :=
    fun a a' ha hid hblob hset id ho => ho.putAttempt hs.attempts ha hid hblob hset
  cases hc with
  | mint n | respace s _ | share kind flag | record r r' _ _ => exact h
  | insert r bs ho =>
    refine h.of_open (fun _ hopen => hopen) fun b hb hp => Or.inr ?_
    rcases List.mem_append.mp hb with hb | hb
    · exact ⟨b, hb, rfl, hp⟩
    · rw [(ho.reserved b hb).2.1] at hp
      simp at hp
  | remove r _ _ _ _ => exact h.remove hs r
  | blob b b' hb hmove =>
    exact h.of_put (fun _ hopen => hopen) rfl fun hp =>
      Or.inr ⟨b, hb, hmove.same.1.symm, by cases hmove <;> exact hp⟩
  | start b a hb _ ha _ =>
    exact h.of_put (fun id ⟨x, hx, hxs⟩ => ⟨x, List.mem_append_left _ hx, hxs⟩) rfl fun hp =>
      Or.inr ⟨b, hb, rfl, hp⟩
  | restart b a a' new hb _ ha hab hinit _ ha' hnew =>
    obtain ⟨hid, hblob⟩ := Work.keys_of_eq (a := a) ha' ⟨rfl, rfl⟩
    have hstate : a'.state = .cleanup := congrArg Work.state ha'
    have hopen := hput a a' ha hid hblob fun _ => hrule.open_of_state (by simp [hstate])
    refine h.of_put (fun id ho => ?_) rfl fun hp => Or.inr ⟨b, hb, rfl, hp⟩
    obtain ⟨x, hx, hxs⟩ := hopen id ho
    exact ⟨x, List.mem_append_left _ hx, hxs⟩
  | attempt a a' n ha hmove =>
    obtain ⟨hid, hblob, -⟩ := hmove.same
    refine h.of_open (hput a a' ha hid hblob fun hset => ?_) fun x hx hp => Or.inr ⟨x, hx, rfl, hp⟩
    by_contra hset'
    have hclean := hrule.settled_state a' (by simpa using hset')
    obtain ⟨hstate, htokens, -⟩ := hmove.settled_eq hclean
    have := hrule.settled_congr a a' (hclean.trans hstate.symm) htokens
    rw [hset] at this
    exact hset' this
  | touch f hf =>
    have hwork : ∀ a, (f a).blobId = a.blobId ∧ w.rule.settled (f a) = w.rule.settled a := by
      intro a
      rcases hf a with he | he <;> exact ⟨congrArg Work.blobId he,
          hrule.settled_congr a (f a) (congrArg Work.state he) (congrArg Work.mutationTokens he)⟩
    refine h.of_open (fun id ⟨a, ha, hab, hset⟩ => ?_) fun x hx hp => Or.inr ⟨x, hx, rfl, hp⟩
    exact ⟨f a, List.mem_map_of_mem ha, (hwork a).1.trans hab, (hwork a).2.trans hset⟩
  | clean b a a' hb ha hab _ _ _ ha' => exact h.clean hs hb ha (hab hm) ha'
  | rearm r b a a' now _ _ hb ha hab _ ha' _ =>
    obtain ⟨hid, hblob⟩ : a'.id = a.id ∧ a'.blobId = a.blobId := by
      rcases ha' with he | ⟨t, _, _, he⟩ <;> exact Work.keys_of_eq he ⟨rfl, rfl⟩
    have hset : w.rule.settled (a'.rearmed now) = false :=
      hrule.open_of_state (by simp [TransferAttempt.rearmed])
    have hopen := hput a (a'.rearmed now) ha hid hblob fun _ => hset
    unfold Ledger.rearm
    split_ifs
    · exact h.of_put hopen rfl fun _ =>
        Or.inl ⟨a'.rearmed now, Table.mem_put_self ha hid, hblob.trans (hab hm), hset⟩
    · exact h.of_open hopen fun x hx hp => Or.inr ⟨x, hx, rfl, hp⟩
  | repair r b a recover now _ _ hb ha hab _ _ _ _ =>
    have hset : w.rule.settled (Attempts.repaired a b recover now) = false := by
      refine hrule.open_of_state ?_
      cases recover <;> simp [Attempts.repaired]
    have hopen := hput a (Attempts.repaired a b recover now) ha rfl rfl fun _ => hset
    unfold Attempts.repairBlob
    split_ifs
    · exact h.of_put hopen rfl fun hp => Or.inr ⟨b, hb, rfl, hp⟩
    · exact h.of_put hopen rfl fun _ =>
        Or.inl ⟨Attempts.repaired a b recover now, Table.mem_put_self ha rfl, hab, hset⟩
    · exact h.of_open hopen fun x hx hp => Or.inr ⟨x, hx, rfl, hp⟩
  | forget keep hkeep =>
    refine h.of_open (fun id ⟨a, ha, hab, hset⟩ => ?_) fun x hx hp => Or.inr ⟨x, hx, rfl, hp⟩
    refine ⟨a, List.mem_filter.mpr ⟨ha, ?_⟩, hab, hset⟩
    by_contra hk
    obtain ⟨hstate, htokens⟩ := (hkeep a ha (by simpa using hk)).resolve_left (hf a.id)
    have := hrule.settled_of_clear a hstate htokens
    simp [hset] at this

/-- A change does not stop a record. -/
theorem Change.live {id : Id} (h : ∀ r ∈ l.records, r.id = id → r.state.terminal = false)
    (hc : Change w l l') :
    ∀ r ∈ l'.records, r.id = id → r.state.terminal = false := by
  intro x hx hid
  cases hc with
  | insert r bs ho =>
    rcases Table.mem_concat.mp hx with hx | rfl
    · exact h x hx hid
    · rw [ho.draft]
      rfl
  | share kind flag =>
    obtain ⟨r, hr, rfl⟩ := List.mem_map.mp hx
    have hlive := h r hr
    split_ifs at hid ⊢ <;> exact hlive hid
  | record r r' hr hm =>
    rcases Table.of_mem_put hx with ⟨hx, -⟩ | rfl
    · exact h x hx hid
    · rw [hm.terminal_eq]
      exact h r hr (hm.same.1.symm.trans hid)
  | remove r _ _ _ _ => exact h x (List.mem_filter.mp hx).1 hid
  | clean b a a' _ _ _ _ _ _ _ =>
    unfold ReleaseRule.cleanAttempt at hx
    split_ifs at hx <;> exact h x hx hid
  | rearm r b a a' now _ _ _ _ _ _ _ _ =>
    unfold Ledger.rearm at hx
    split_ifs at hx <;> exact h x hx hid
  | repair r b a recover now _ _ _ _ _ _ _ _ _ =>
    unfold Attempts.repairBlob at hx
    split_ifs at hx <;> exact h x hx hid
  | _ => exact h x hx hid

/-! ### Stopping a record -/

namespace ReleaseRule

variable {rule : ReleaseRule} {l : Ledger} {r : Record} {state : RecordState} {now : Time}

/-- An attachment of another record, and its attempts, are left alone. -/
theorem release_other (hs : l.Sound) {b : Blob} (hb : b ∈ l.blobs) (hne : b.recordId ≠ r.id) :
    b ∈ (rule.release l r state now).blobs ∧
      (rule.release l r state now).attemptsOf b.id = l.attemptsOf b.id := by
  constructor
  · rw [release_blobs state now hs.blobs]
    exact List.mem_map.mpr ⟨b, hb, if_neg hne⟩
  · unfold Ledger.attemptsOf
    rw [release_attempts state now hs.blobs]
    refine Table.filter_map_eq (fun a _ => ?_) fun a _ hab => ?_
    · rcases rule.releasedAttempt_work l r now a with he | ⟨he, -⟩ <;>
        rw [show (rule.releasedAttempt l r now a).blobId = a.blobId from congrArg Work.blobId he]
    · -- The attachment that the pass looks up is `b`.
      have hget : l.blob a.blobId = some b := by
        rw [of_decide_eq_true hab]
        exact hs.blobs.get_eq hb
      unfold releasedAttempt
      rw [hget]
      exact if_neg fun h => hne h.1

/-- Stopping a record settles no attempt, and unsettles none. -/
theorem release_open (hrule : rule.Lawful) (hs : l.Sound) {id : Id} :
    (rule.release l r state now).Open rule id ↔ l.Open rule id := by
  have hsettled : ∀ a : TransferAttempt, (rule.releasedAttempt l r now a).blobId = a.blobId ∧
      rule.settled (rule.releasedAttempt l r now a) = rule.settled a := by
    intro a
    rcases rule.releasedAttempt_work l r now a with he | ⟨he, hset⟩
    · exact ⟨congrArg Work.blobId he,
        hrule.settled_congr _ _ (congrArg Work.state he) (congrArg Work.mutationTokens he)⟩
    · have hstate : (rule.releasedAttempt l r now a).state = .cleanup := congrArg Work.state he
      exact ⟨congrArg Work.blobId he, (hrule.open_of_state (by simp [hstate])).trans hset.symm⟩
  unfold Ledger.Open
  rw [release_attempts state now hs.blobs]
  constructor
  · rintro ⟨a', ha', hid, hset⟩
    obtain ⟨a, ha, rfl⟩ := List.mem_map.mp ha'
    exact ⟨a, ha, (hsettled a).1.symm.trans hid, (hsettled a).2.symm.trans hset⟩
  · rintro ⟨a, ha, hid, hset⟩
    exact ⟨_, List.mem_map_of_mem ha, (hsettled a).1.trans hid, (hsettled a).2.trans hset⟩

/-- A stuck attachment of the record is charged. -/
theorem release_charges (hs : l.Sound) {b : Blob} (hb : b ∈ l.blobsOf r.id)
    (hstuck : l.Stuck rule b) :
    ∃ b' ∈ (rule.release l r state now).blobs,
      b'.id = b.id ∧ b'.recordId = r.id ∧ b'.pendingDeletion = true := by
  obtain ⟨hb, hrec⟩ := List.mem_filter.mp hb
  have hpass : rule.releasedBlob l r now b = rule.released now (l.attemptsOf b.id) b :=
    if_pos (of_decide_eq_true hrec)
  have hcharges : rule.done b = false ∧ rule.absent (l.attemptsOf b.id) = false := by
    simpa [charges] using hstuck.1
  refine ⟨rule.releasedBlob l r now b, ?_, ?_, ?_, ?_⟩
  · rw [release_blobs state now hs.blobs]
    exact List.mem_map_of_mem hb
  · rw [hpass, released_id]
  · rw [hpass, released_recordId]
    exact of_decide_eq_true hrec
  · rw [hpass]
    simp [released, hcharges.1, hcharges.2]

/-- **Stopping a record keeps the cover iff none of its attachments is stuck.** -/
theorem release_covered (hrule : rule.Lawful) (hs : l.Sound) (h : l.Covered rule) :
    (rule.release l r state now).Covered rule ↔ ∀ b ∈ l.blobsOf r.id, ¬ l.Stuck rule b := by
  have hblobs : (rule.release l r state now).blobs = _ := release_blobs state now hs.blobs
  constructor
  · intro hcov b hb hstuck
    -- The pass charges `b`, which was not open before and is not open now.
    obtain ⟨b', hb', hid, -, hp⟩ : ∃ b' ∈ (rule.release l r state now).blobs,
        b'.id = b.id ∧ b'.recordId = r.id ∧ b'.pendingDeletion = true :=
          release_charges hs hb hstuck
    exact hstuck.2 (hid ▸ (release_open hrule hs).mp (hcov b' hb' hp))
  · intro hstuck b' hb' hp
    rw [hblobs] at hb'
    obtain ⟨b, hb, rfl⟩ := List.mem_map.mp hb'
    rw [release_open hrule hs]
    by_cases hrec : b.recordId = r.id
    · have hpass : rule.releasedBlob l r now b = rule.released now (l.attemptsOf b.id) b :=
        if_pos hrec
      rw [hpass, released_id]
      rw [hpass] at hp
      by_cases hbp : b.pendingDeletion = true
      · exact h b hb hbp
      · -- It was not charged before, so this pass charged it.
        have hcharges : rule.charges (l.attemptsOf b.id) b = true := by
          unfold released at hp
          unfold charges
          split_ifs at hp with hdone habs
          · exact absurd hp hbp
          · exact absurd hp hbp
          · simp [hdone, habs]
        by_contra hopen
        exact hstuck b (List.mem_filter.mpr ⟨hb, by simpa using hrec⟩) ⟨hcharges, hopen⟩
    · have hkeep : rule.releasedBlob l r now b = b := if_neg hrec
      rw [hkeep] at hp ⊢
      exact h b hb hp

/-! ### Stopping several records -/

variable {states : Record → RecordState}

theorem stop_cons_live (rs : List Record) (hr : r.state.terminal = false) :
    rule.stop states now l (r :: rs) =
      rule.stop states now (rule.release l r (states r) now) rs := by
  simp [stop, hr]

theorem stop_cons_terminal (rs : List Record) (hr : r.state.terminal = true) :
    rule.stop states now l (r :: rs) = rule.stop states now l rs := by
  simp [stop, hr]

/-- What releasing each of the records keeps, stopping them keeps. -/
theorem stop_keeps {P : Ledger → Prop} (h : P l) (rs : List Record)
    (hstep : ∀ m, P m → ∀ r ∈ rs, P (rule.release m r (states r) now)) :
    P (rule.stop states now l rs) := by
  refine List.foldlRecOn rs _ h fun m hm r hr => ?_
  split
  · exact hm
  · exact hstep m hm r hr

theorem stop_sound (hs : l.Sound) (rs : List Record) : (rule.stop states now l rs).Sound :=
  stop_keeps hs rs fun _ hm r _ => hm.release rule r (states r) now

theorem stop_open (hrule : rule.Lawful) (hs : l.Sound) (rs : List Record) {id : Id} :
    (rule.stop states now l rs).Open rule id ↔ l.Open rule id := by
  refine (stop_keeps (P := fun m => m.Sound ∧ (m.Open rule id ↔ l.Open rule id)) ⟨hs, Iff.rfl⟩ rs
    fun m hm r _ => ?_).2
  exact ⟨hm.1.release rule r (states r) now, (release_open hrule hm.1).trans hm.2⟩

/-- An attachment of none of the records stays as it is. -/
theorem stop_blob (hs : l.Sound) (rs : List Record) {b : Blob} (hb : b ∈ l.blobs)
    (hne : b.recordId ∉ rs.map Record.id) : b ∈ (rule.stop states now l rs).blobs := by
  refine (stop_keeps (P := fun m => m.Sound ∧ b ∈ m.blobs) ⟨hs, hb⟩ rs fun m hm r hr => ?_).2
  have hother : b.recordId ≠ r.id := fun e => hne (e ▸ List.mem_map_of_mem hr)
  exact ⟨hm.1.release rule r (states r) now, (release_other hm.1 hm.2 hother).1⟩

/-- A record that is not among them stays as it is. -/
theorem stop_record (rs : List Record) {x : Record} (hx : x ∈ l.records)
    (hne : x.id ∉ rs.map Record.id) :
    x ∈ (rule.stop states now l rs).records := by
  refine stop_keeps (P := fun m => x ∈ m.records) hx rs fun m hm r hr => ?_
  rw [release_records]
  exact Table.mem_put_of_ne hm fun e => hne (List.mem_map.mpr ⟨r, hr, e.symm⟩)

/-- Each of the records that is live is stopped. -/
theorem stop_stopped {rs : List Record} (hk : Table.Keyed Record.id rs)
    (hrs : ∀ x ∈ rs, x ∈ l.records) {x : Record} (hx : x ∈ rs) (hlive : x.state.terminal = false) :
    x.stopped (states x) ∈ (rule.stop states now l rs).records := by
  induction rs generalizing l with
  | nil => simp at hx
  | cons r rs ih =>
    obtain ⟨hr, hk⟩ := List.nodup_cons.mp hk
    have hxs : ∀ y ∈ rs, y ∈ l.records := fun y hy => hrs y (List.mem_cons_of_mem r hy)
    cases hlive' : r.state.terminal with
    | true =>
      rw [stop_cons_terminal rs hlive']
      rcases List.mem_cons.mp hx with rfl | hx
      · simp [hlive] at hlive'
      · exact ih hk hxs hx
    | false =>
      rw [stop_cons_live rs hlive']
      rcases List.mem_cons.mp hx with rfl | hx
      · -- The row just written is not written again.
        refine stop_record rs ?_ hr
        rw [release_records]
        exact Table.mem_put_self (hrs x List.mem_cons_self) rfl
      · refine ih hk (fun y hy => ?_) hx
        rw [release_records]
        exact Table.mem_put_of_ne (hxs y hy) fun e => hr (e ▸ List.mem_map_of_mem hy)

/-- **Stopping records keeps the cover iff none of their attachments is stuck.** -/
theorem stop_covered (hrule : rule.Lawful) (hs : l.Sound) (h : l.Covered rule) {rs : List Record}
    (hk : Table.Keyed Record.id rs) : (rule.stop states now l rs).Covered rule ↔
      ∀ r ∈ rs, r.state.terminal = false → ∀ b ∈ l.blobsOf r.id, ¬ l.Stuck rule b := by
  induction rs generalizing l with
  | nil => exact ⟨fun _ _ hr => by simp at hr, fun _ => h⟩
  | cons r rs ih =>
    obtain ⟨hr, hk⟩ := List.nodup_cons.mp hk
    cases hlive : r.state.terminal with
    | true =>
      rw [stop_cons_terminal rs hlive, ih hs h hk]
      simp [hlive]
    | false =>
      rw [stop_cons_live rs hlive]
      have hs' := hs.release rule r (states r) now
      -- The attachments of the other records are stuck afterwards iff they were before.
      have hrest : ∀ x ∈ rs, (∀ b ∈ (rule.release l r (states r) now).blobsOf x.id,
          ¬ (rule.release l r (states r) now).Stuck rule b) ↔
            ∀ b ∈ l.blobsOf x.id, ¬ l.Stuck rule b := by
        intro x hx
        have hne : x.id ≠ r.id := fun e => hr (e ▸ List.mem_map_of_mem hx)
        have hstuck : ∀ b ∈ l.blobsOf x.id, b ∈ (rule.release l r (states r) now).blobsOf x.id ∧
            ((rule.release l r (states r) now).Stuck rule b ↔ l.Stuck rule b) := by
          intro b hb
          obtain ⟨hb, hrec⟩ := List.mem_filter.mp hb
          have hbr : b.recordId ≠ r.id := fun e => hne ((of_decide_eq_true hrec).symm.trans e)
          have hother : b ∈ (rule.release l r (states r) now).blobs ∧
              (rule.release l r (states r) now).attemptsOf b.id = l.attemptsOf b.id :=
            release_other hs hb hbr
          refine ⟨List.mem_filter.mpr ⟨hother.1, hrec⟩, ?_⟩
          unfold Ledger.Stuck
          rw [release_open hrule hs, hother.2]
        constructor
        · exact fun hno b hb hb' => hno b (hstuck b hb).1 ((hstuck b hb).2.mpr hb')
        · intro hno b hb hb'
          obtain ⟨hbm, hrec⟩ := List.mem_filter.mp hb
          rw [release_blobs (states r) now hs.blobs] at hbm
          obtain ⟨c, hc, rfl⟩ := List.mem_map.mp hbm
          have hcr : c.recordId = x.id := by
            have := of_decide_eq_true hrec
            unfold releasedBlob at this
            split_ifs at this
            · rwa [released_recordId] at this
            · exact this
          have hcx : c ∈ l.blobsOf x.id := List.mem_filter.mpr ⟨hc, by simpa using hcr⟩
          have hsame : rule.releasedBlob l r now c = c := if_neg fun e => hne (hcr.symm.trans e)
          rw [hsame] at hb'
          exact hno c hcx ((hstuck c hcx).2.mp hb')
      have hfirst : (rule.release l r (states r) now).Covered rule ↔
          ∀ b ∈ l.blobsOf r.id, ¬ l.Stuck rule b :=
        release_covered hrule hs h
      constructor
      · intro hcov
        -- An attachment of `r` that it strands is not touched when the others are stopped.
        have hno : ∀ b ∈ l.blobsOf r.id, ¬ l.Stuck rule b := by
          intro b hb hstuck
          obtain ⟨b', hb', hid, hrec, hp⟩ : ∃ b' ∈ (rule.release l r (states r) now).blobs,
              b'.id = b.id ∧ b'.recordId = r.id ∧ b'.pendingDeletion = true :=
            release_charges hs hb hstuck
          have hopen := hcov b' (stop_blob hs' rs hb' (hrec ▸ hr)) hp
          rw [stop_open hrule hs', release_open hrule hs, hid] at hopen
          exact hstuck.2 hopen
        have hall := (ih hs' (hfirst.mpr hno) hk).mp hcov
        intro x hx hxl
        rcases List.mem_cons.mp hx with rfl | hx
        · exact hno
        · exact (hrest x hx).mp (hall x hx hxl)
      · intro hno
        have hcov := hfirst.mpr (hno r List.mem_cons_self hlive)
        exact (ih hs' hcov hk).mpr fun x hx hxl =>
          (hrest x hx).mpr (hno x (List.mem_cons_of_mem r hx) hxl)

end ReleaseRule

/-! ### Transactions -/

/-- Failing an attempt leaves an attachment as stuck as it was: of two rows of one attempt, the
one under a lease and the failed one, neither is settled. -/
theorem Effect.fail_stuck {rule : ReleaseRule} (hrule : rule.Lawful) (hs : l.Sound)
    (hrest : l.Rested) {a a' : TransferAttempt} {t : Token} (ha : a ∈ l.attempts)
    (ht : a.token = some t) (ha' : a'.work = a.work.ended .failed) (b : Blob) :
    (l.putAttempt a').Stuck rule b ↔ l.Stuck rule b := by
  obtain ⟨hid, hblob⟩ := Work.keys_of_eq (a := a) ha' ⟨rfl, rfl⟩
  by_cases hab : a.blobId = b.id
  · have hopen : l.Open rule b.id := by
      refine ⟨a, ha, hab, hrule.open_of_state fun hc => ?_⟩
      have := (hrest a ha hc).1
      simp [ht] at this
    have hstate : a'.state = .failed := congrArg Work.state ha'
    have hopen' : (l.putAttempt a').Open rule b.id :=
      ⟨a', Table.mem_put_self ha hid, hblob.trans hab, hrule.open_of_state (by simp [hstate])⟩
    exact ⟨fun h => absurd hopen' h.2, fun h => absurd hopen h.2⟩
  · unfold Ledger.Stuck
    rw [Ledger.open_iff_attemptsOf, Ledger.open_iff_attemptsOf,
      Ledger.attemptsOf_putAttempt hs ha hid hblob hab]

/-! ### The records that a transaction stops -/

/-- Changes stop no record. -/
theorem Changes.not_stops (hs : l.Sound) (hc : Changes w l l') (r : Record) : ¬ l.Stops l' r := by
  rintro ⟨hr, hlive, r', hr', hid, hterm⟩
  have hkeep := hc.preserves (P := fun m => ∀ x ∈ m.records, x.id = r.id → x.state.terminal = false)
    (fun m m' hm' hstep => hstep.live hm') fun x hx hxr => hs.records.eq_of_key_eq hx hr hxr ▸ hlive
  rw [hkeep r' hr' hid] at hterm
  simp at hterm

/-- A transaction that may not stop records stops none. -/
theorem Effect.not_stops (hs : l.Sound) (he : Effect w l l') (hw : ¬ w.stop) (r : Record) :
    ¬ l.Stops l' r := by
  cases he with
  | quiet hc => exact hc.not_stops hs r
  | fail _ _ _ _ _ _ _ _ _ _ _ _ _ _ _ hstop | stop _ _ _ _ _ _ hstop => exact absurd hstop hw

/-- Stopping a draft, after its attempts were written, stops that record. -/
theorem ReleaseRule.release_stops (rule : ReleaseRule) (hs : l.Sound) {m : Ledger}
    (hm : m.records = l.records) {r : Record} (hr : r ∈ l.records)
    (hlive : r.state.terminal = false) {state : RecordState} (ht : state.terminal = true)
    (now : Time) (x : Record) : l.Stops (rule.release m r state now) x ↔ x = r := by
  unfold Ledger.Stops
  rw [ReleaseRule.release_records, hm]
  constructor
  · rintro ⟨hx, hxl, x', hx', hxid, hxt⟩
    rcases Table.of_mem_put hx' with ⟨hx', -⟩ | rfl
    · rw [hs.records.eq_of_key_eq hx' hx hxid, hxl] at hxt
      simp at hxt
    · exact hs.records.eq_of_key_eq hx hr hxid.symm
  · rintro rfl
    exact ⟨hr, hlive, x.stopped state, Table.mem_put_self hr rfl, rfl, ht⟩

/-- Stopping records stops those of them that are live. -/
theorem ReleaseRule.stop_stops (rule : ReleaseRule) (hs : l.Sound) {rs : List Record}
    (hrs : ∀ r ∈ rs, r ∈ l.records) (hk : Table.Keyed Record.id rs) {states : Record → RecordState}
    (hterm : ∀ r, (states r).terminal = true) (now : Time) (x : Record) :
    l.Stops (rule.stop states now l rs) x ↔ x ∈ rs ∧ x.state.terminal = false := by
  constructor
  · rintro ⟨hx, hxl, x', hx', hxid, hxt⟩
    refine ⟨?_, hxl⟩
    by_contra hmem
    have hne : x.id ∉ rs.map Record.id := by
      intro hin
      obtain ⟨y, hy, hyx⟩ := List.mem_map.mp hin
      exact hmem (hs.records.eq_of_key_eq (hrs y hy) hx hyx ▸ hy)
    have hkept : x ∈ (rule.stop states now l rs).records := ReleaseRule.stop_record rs hx hne
    rw [(ReleaseRule.stop_sound hs rs).records.eq_of_key_eq hx' hkept hxid, hxl] at hxt
    simp at hxt
  · rintro ⟨hx, hxl⟩
    exact ⟨hrs x hx, hxl, _, ReleaseRule.stop_stopped hk hrs hx hxl, rfl, hterm x⟩

/-- **A transaction strands a charge iff it stops a record with a stuck attachment.** -/
theorem Effect.covered_iff (hrule : w.rule.Lawful) (hm : w.matched) (hf : ∀ id, ¬ w.forget id)
    (hs : l.Sound) (hrest : l.Rested) (h : l.Covered w.rule) (he : Effect w l l') :
    l'.Covered w.rule ↔ ∀ r, l.Stops l' r → ∀ b ∈ l.blobsOf r.id, ¬ l.Stuck w.rule b := by
  cases he with
  | quiet hc =>
    have hcov : l'.Sound ∧ l'.Covered w.rule :=
      hc.preserves (P := fun m => m.Sound ∧ m.Covered w.rule)
        (fun m m' hm' hstep => ⟨hstep.sound hm'.1, hstep.covered hrule hm hf hm'.1 hm'.2⟩) ⟨hs, h⟩
    exact ⟨fun _ r hstop => absurd hstop (hc.not_stops hs r), fun _ => hcov.2⟩
  | fail r b a a' t now hr hrb hd hb ha hab ht hw ha' _ =>
    have hchange := Effect.fail_change ha ht hw ha'
    rw [ReleaseRule.release_covered hrule (hchange.sound hs) (hchange.covered hrule hm hf hs h)]
    have hstops := w.rule.release_stops (m := l.putAttempt a') hs rfl hr (by rw [hd]; rfl)
      (show RecordState.failed.terminal = true from rfl) now
    constructor
    · intro hno x hx c hc hstuck
      rw [(hstops x).mp hx] at hc
      exact hno c hc ((Effect.fail_stuck hrule hs hrest ha ht ha' c).mpr hstuck)
    · intro hno c hc hstuck
      exact hno r ((hstops r).mpr rfl) c hc
        ((Effect.fail_stuck hrule hs hrest ha ht ha' c).mp hstuck)
  | stop rs states now hrs hk hterm _ =>
    rw [ReleaseRule.stop_covered hrule hs h hk]
    have hstops := w.rule.stop_stops hs hrs hk hterm now
    constructor
    · intro hno x hx
      exact hno x ((hstops x).mp hx).1 ((hstops x).mp hx).2
    · intro hno x hx hxl
      exact hno x ((hstops x).mpr ⟨hx, hxl⟩)

end Hf2l.Exchange
