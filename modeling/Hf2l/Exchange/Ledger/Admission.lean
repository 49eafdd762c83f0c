import Hf2l.Exchange.Ledger.Stranding

/-!
# `Hf2l.Exchange.Ledger.Admission`: the limits of a space

The limits of a space are compared when a record is opened, when a draft is amended and when
the limits themselves are set. All other changes have to leave room as it is. Stopping a
record does: what it charges for deletion is at most what it no longer allocates. Charging an
attachment of a stopped record a second time does not, and `Cleared` says when that can happen
at all: an attachment that is charged no more has cleaned attempts only, so no marker of it is
still in the ledger.
-/

set_option autoImplicit false

namespace Hf2l.Exchange

open Lib

namespace Ledger

/-- The use of the space is within its limits. -/
structure Within (l : Ledger) : Prop where
  bytes : l.space.allocated + l.space.reclaiming ≤ l.space.quotaBytes
  records : l.space.recordCount ≤ l.space.quotaRecords
  metadata : l.space.metadataBytes ≤ l.space.quotaMetadataBytes

/-- There is room to charge the attachment. -/
def Room (l : Ledger) (b : Blob) : Prop :=
  l.space.allocated + l.space.reclaiming + b.size ≤ l.space.quotaBytes

/-- The attempts of an attachment whose record is stopped and that is charged no more. -/
def Cleared (l : Ledger) : Prop :=
  ∀ b ∈ l.blobs, ∀ r ∈ l.records, r.id = b.recordId → r.state.terminal = true →
    b.pendingDeletion = false → ∀ a ∈ l.attempts, a.blobId = b.id → a.state = .cleaned

end Ledger

/-! ### Attachments that are charged no more -/

theorem Move.stays_cleaned {w : Allowance} {l : Ledger} {x y : Work} {n : Nat} (hm : Move w l x n y)
    (hx : x.state = .cleaned) (ht : x.token = none) : y.state = .cleaned := by
  cases hm with
  | keep | unlease | expose t | mark part hs | lease hs | settle t _ hs _ => exact hx
  | submit hs | supersede hs => simp [hx] at hs
  | advance t s z ht' _ _ _ => simp [ht] at ht'

variable {r : Record}

/-- The record of an attachment in a draft is not stopped. -/
theorem Ledger.InDraft.live {l : Ledger} (hs : l.Sound) {b : Blob} (hd : l.InDraft b)
    (hr : r ∈ l.records) (hid : r.id = b.recordId) : r.state.terminal = false := by
  obtain ⟨d, hdm, hdid, hds⟩ := hd
  rw [hs.records.eq_of_key_eq hr hdm (hid.trans hdid.symm), hds]
  rfl

/-- A write of the row of one attachment, in a draft or charged. -/
theorem Ledger.Cleared.putBlob {l : Ledger} (h : l.Cleared) {b' : Blob}
    (hb' : ∀ r ∈ l.records, r.id = b'.recordId → r.state.terminal = true →
      b'.pendingDeletion = false → ∀ a ∈ l.attempts, a.blobId = b'.id → a.state = .cleaned) :
    (l.putBlob b').Cleared := by
  intro x hx r hr hid ht hp a ha hab
  rcases Table.of_mem_put hx with ⟨hx, -⟩ | rfl
  · exact h x hx r hr hid ht hp a ha hab
  · exact hb' r hr hid ht hp a ha hab

/-- A new attempt of an attachment in a draft. -/
theorem Ledger.Cleared.openAttempt {l : Ledger} (h : l.Cleared) {b : Blob} {new : TransferAttempt}
    (hb : b ∈ l.blobs) (hlive : ∀ r ∈ l.records, r.id = b.recordId → r.state.terminal = false)
    (hnew : new.blobId = b.id) :
    (l.openAttempt b new).Cleared := by
  intro c hc r hr hid ht hp x hx hxc
  rcases List.mem_append.mp hx with hx | hx
  · rcases Table.of_mem_put hc with ⟨hc, -⟩ | rfl
    · exact h c hc r hr hid ht hp x hx hxc
    · exact h b hb r hr hid ht hp x hx hxc
  · have hxb : x.blobId = b.id := List.mem_singleton.mp hx ▸ hnew
    have hlive : r.state.terminal = false := by
      rcases Table.of_mem_put hc with ⟨hc, hne⟩ | rfl
      · exact absurd (hxc.symm.trans hxb) hne
      · exact hlive r hr hid
    simp [hlive] at ht

theorem Change.cleared {w : Allowance} (hrule : w.rule.Lawful) (hm : w.matched) {l l' : Ledger}
    (hs : l.Sound) (hrest : l.Rested) (h : l.Cleared) (hc : Change w l l') : l'.Cleared := by
  -- A write of one attempt, with the attachments as they were.
  have hput : ∀ a a' : TransferAttempt, a ∈ l.attempts → a'.blobId = a.blobId →
      (a.state = .cleaned → a'.state = .cleaned) → (l.putAttempt a').Cleared := by
    intro a a' ha hblob hstate b hb r hr hid ht hp x hx hxb
    rcases Table.of_mem_put hx with ⟨hx, -⟩ | rfl
    · exact h b hb r hr hid ht hp x hx hxb
    · exact hstate (h b hb r hr hid ht hp a ha (hblob.symm.trans hxb))
  -- A write of an attempt of `b`, where `b` is charged or its record is live.
  have hopen : ∀ (b : Blob) (a a' : TransferAttempt), b ∈ l.blobs → a ∈ l.attempts →
      a'.blobId = b.id →
      (∀ r ∈ l.records, r.id = b.recordId → r.state.terminal = true → b.pendingDeletion = false →
      False) → (l.putAttempt a').Cleared := by
    intro b a a' hb ha hblob hno c hc r hr hid ht hp x hx hxc
    rcases Table.of_mem_put hx with ⟨hx, -⟩ | rfl
    · exact h c hc r hr hid ht hp x hx hxc
    · have he : c = b := hs.blobs.eq_of_key_eq hc hb (hxc.symm.trans hblob)
      rw [he] at hid hp
      exact absurd hp fun hp => hno r hr hid ht hp
  -- A write of an attempt of `b`, which is charged again.
  have hcharged : ∀ (b : Blob) (a' : TransferAttempt), a'.blobId = b.id →
      ((l.putAttempt a').putBlob b.recharged).Cleared := by
    intro b a' hblob c hc x hx hid ht hp y hy hyc
    rcases Table.of_mem_put hc with ⟨hc, hne⟩ | rfl
    · rcases Table.of_mem_put hy with ⟨hy, -⟩ | rfl
      · exact h c hc x hx hid ht hp y hy hyc
      · exact absurd (hyc.symm.trans hblob) hne
    · simp [Blob.recharged] at hp
  cases hc with
  | mint n | respace s _ => exact h
  | insert r bs ho =>
    intro b hb x hx hid ht hp a ha hab
    rcases Table.mem_concat.mp hx with hx | rfl
    · rcases List.mem_append.mp hb with hb | hb
      · exact h b hb x hx hid ht hp a ha hab
      · rw [ho.owner b hb, ho.id] at hid
        exact absurd hid ((hs.mintedRecords x hx).ne_fresh 0)
    · rw [ho.draft] at ht
      simp [RecordState.terminal] at ht
  | share kind flag =>
    intro b hb x hx hid ht hp a ha hab
    obtain ⟨r, hr, rfl⟩ := List.mem_map.mp hx
    have hrow := h b hb r hr
    split_ifs at hid ht <;> exact hrow hid ht hp a ha hab
  | record r r' hr hmove =>
    intro b hb x hx hid ht hp a ha hab
    rcases Table.of_mem_put hx with ⟨hx, -⟩ | rfl
    · exact h b hb x hx hid ht hp a ha hab
    · rw [hmove.terminal_eq] at ht
      exact h b hb r hr (hmove.same.1.symm.trans hid) ht hp a ha hab
  | remove r _ _ _ _ =>
    intro b hb x hx hid ht hp a ha hab
    exact h b (List.mem_filter.mp hb).1 x (List.mem_filter.mp hx).1 hid ht hp a
      (List.mem_filter.mp ha).1 hab
  | blob b b' hb hmove =>
    refine h.putBlob fun r hr hid ht hp a ha hab => ?_
    obtain ⟨hbid, hrec, -⟩ := hmove.same
    have hpending : b'.pendingDeletion = b.pendingDeletion := by cases hmove <;> rfl
    exact h b hb r hr (hid.trans hrec) ht (hpending.symm.trans hp) a ha (hab.trans hbid)
  | start b a hb hd ha _ => exact h.openAttempt hb (fun r hr hid => hd.live hs hr hid) ha.blobId
  | restart b a a' new hb hd ha hab _ _ ha' hnew =>
    have hlive : ∀ r ∈ l.records, r.id = b.recordId → r.state.terminal = false :=
      fun r hr hid => hd.live hs hr hid
    have hold := hopen b a a' hb ha ((congrArg Work.blobId ha').trans hab) fun r hr hid ht _ => by
      simp [hlive r hr hid] at ht
    exact hold.openAttempt hb hlive hnew.blobId
  | attempt a a' n ha hmove =>
    exact hput a a' ha hmove.same.2.1 fun hclean => hmove.stays_cleaned hclean (hrest a ha hclean).1
  | touch f hf =>
    intro b hb r hr hid ht hp x hx hxb
    obtain ⟨a, ha, rfl⟩ := List.mem_map.mp hx
    rcases hf a with he | he <;> exact (congrArg Work.state he).trans
        (h b hb r hr hid ht hp a ha ((congrArg Work.blobId he).symm.trans hxb))
  | clean b a a' hb ha hab _ _ _ ha' =>
    have hstate : a'.state = .cleaned := congrArg Work.state ha'
    have hrow := hput a a' ha (congrArg Work.blobId ha') fun _ => hstate
    unfold ReleaseRule.cleanAttempt
    split_ifs with hall
    · -- The attachment that is discharged has settled attempts only.
      refine hrow.putBlob fun r _ _ _ _ x hx hxb => ?_
      have hmem : x ∈ (l.putAttempt a').attemptsOf b.id :=
        List.mem_filter.mpr ⟨hx, decide_eq_true hxb⟩
      exact hrule.settled_state x (List.all_eq_true.mp hall.1 x hmem)
    · exact hrow
  | rearm r b a a' now hr hrb hb ha hab _ ha' _ =>
    have hblob : (a'.rearmed now).blobId = b.id := by
      have hwork : a'.blobId = a.blobId := by
        rcases ha' with he | ⟨t, _, _, he⟩ <;> exact congrArg Work.blobId he
      exact hwork.trans (hab hm)
    unfold Ledger.rearm
    split_ifs with hcharge
    · exact hcharged b _ hblob
    · refine hopen b a _ hb ha hblob fun x hx hid ht hp => hcharge ⟨?_, hp⟩
      rw [hs.records.eq_of_key_eq hr hx (hrb.trans hid.symm)]
      exact ht
  | repair r b a recover now hr hrb hb ha hab _ _ _ _ =>
    have hblob : (Attempts.repaired a b recover now).blobId = b.id := hab
    have hsame : ∀ x ∈ l.records, x.id = b.recordId → x = r := fun x hx hid =>
      hs.records.eq_of_key_eq hx hr (hid.trans hrb.symm)
    unfold Attempts.repairBlob
    split_ifs with hdraft hcharge
    · have hlive : ∀ x ∈ l.records, x.id = b.recordId → x.state.terminal = true →
        b.pendingDeletion = false → False := by
        intro x hx hid ht _
        rw [hsame x hx hid, hdraft.1] at ht
        simp [RecordState.terminal] at ht
      refine (hopen b a _ hb ha hblob hlive).putBlob fun x hx hid ht hp => ?_
      exact absurd hp fun hp => hlive x hx hid ht hp
    · exact hcharged b _ hblob
    · refine hopen b a _ hb ha hblob fun x hx hid ht hp => hcharge ⟨?_, hp⟩
      rw [← hsame x hx hid]
      exact ht
  | forget keep _ =>
    intro b hb r hr hid ht hp a ha hab
    exact h b hb r hr hid ht hp a (List.mem_filter.mp ha).1 hab

/-- Stopping a record charges each attachment that has an attempt left to clean. -/
theorem Ledger.Cleared.release {rule : ReleaseRule} (hrule : rule.Lawful) {l : Ledger}
    (h : l.Cleared) (ha : l.Accounted) (hr : r ∈ l.records) (hlive : r.state.terminal = false)
    (state : RecordState) (now : Time) : (rule.release l r state now).Cleared := by
  have hs := ha.toSound
  intro b' hb' x hx hid ht hp a' ha' hab
  rw [ReleaseRule.release_blobs state now hs.blobs] at hb'
  rw [ReleaseRule.release_records] at hx
  rw [ReleaseRule.release_attempts state now hs.blobs] at ha'
  obtain ⟨b, hb, rfl⟩ := List.mem_map.mp hb'
  obtain ⟨a, ham, rfl⟩ := List.mem_map.mp ha'
  have hblobId : (rule.releasedAttempt l r now a).blobId = a.blobId := by
    rcases rule.releasedAttempt_work l r now a with he | ⟨he, -⟩ <;> exact congrArg Work.blobId he
  rw [hblobId] at hab
  by_cases hrec : b.recordId = r.id
  · have hpass : rule.releasedBlob l r now b = rule.released now (l.attemptsOf b.id) b :=
      if_pos hrec
    rw [hpass, ReleaseRule.released_id] at hab
    rw [hpass] at hp
    obtain ⟨hpending, hstate⟩ := (ha.charged b hb r hr hrec.symm).live hlive
    have hdone := hrule.done_live b hpending hstate
    -- It is not charged, so all its attempts were settled.
    have habs : rule.absent (l.attemptsOf b.id) = true := by
      by_contra habs
      simp [ReleaseRule.released, hdone, habs] at hp
    have hmem : a ∈ l.attemptsOf b.id := List.mem_filter.mpr ⟨ham, by simpa using hab⟩
    have hsettled := hrule.absent_settled _ habs a hmem
    rcases rule.releasedAttempt_work l r now a with he | ⟨-, hopen⟩
    · exact (congrArg Work.state he).trans (hrule.settled_state a hsettled)
    · simp [hsettled] at hopen
  · have hkeep : rule.releasedBlob l r now b = b := if_neg hrec
    rw [hkeep] at hid hp hab
    have hne : x.id ≠ r.id := fun e => hrec (hid.symm.trans e)
    have hxl : x ∈ l.records := by
      rcases Table.of_mem_put hx with ⟨hx, -⟩ | rfl
      · exact hx
      · exact absurd rfl hne
    have hclean := h b hb x hxl hid ht hp a ham hab
    -- The attempts of another record's attachment are not touched.
    have hsame : rule.releasedAttempt l r now a = a := by
      have hget : l.blob a.blobId = some b := by
        rw [hab]
        exact hs.blobs.get_eq hb
      unfold ReleaseRule.releasedAttempt
      rw [hget]
      exact if_neg fun e => hrec e.1
    rw [hsame]
    exact hclean

/-! ### Room -/

section Within

variable {w : Allowance} {l l' : Ledger}

/-- What stopping a record charges is at most what it no longer allocates. -/
theorem Ledger.Within.release {rule : ReleaseRule} (h : l.Within) (ha : l.Accounted) {r : Record}
    (hr : r ∈ l.records) (state : RecordState) (now : Time) :
    (rule.release l r state now).Within := by
  have hspace : (rule.release l r state now).space = _ :=
    ReleaseRule.release_space state now ha.blobs
  have hcharge : Table.total (fun b => rule.charge (l.attemptsOf b.id) b) (l.blobsOf r.id) ≤
      r.declaredBytes := by
    rw [ha.declared r hr]
    refine Table.total_le fun b _ => ?_
    unfold ReleaseRule.charge
    split_ifs
    · exact le_refl _
    · omega
  have hbytes := h.bytes
  constructor
  · rw [hspace]
    simp only [Space.moved]
    omega
  · rw [hspace]
    exact h.records
  · rw [hspace]
    exact h.metadata

theorem RecordMove.within {r r' : Record} (hm : RecordMove w l r r') (h : l.Within) :
    l.space.metadataBytes + ((r'.metadataBytes : Int) - r.metadataBytes) ≤
      l.space.quotaMetadataBytes := by
  have hmeta := h.metadata
  cases hm with
  | amend metadata size base generation _ _ _ hq =>
    show l.space.metadataBytes + ((size : Int) - r.metadataBytes) ≤ _
    omega
  | publish publishedAt shared generation _ _ | extend t _ =>
    show l.space.metadataBytes + ((r.metadataBytes : Int) - r.metadataBytes) ≤ _
    omega

/-- **A change that charges an attachment again only where there is room keeps the limits.** -/
theorem Change.within (hm : w.matched) (hroom : ∀ m b, w.recharge m b → m.Room b) (hrest : l.Rested)
    (hclear : l.Cleared) (h : l.Within) (hc : Change w l l') : l'.Within := by
  have hbytes := h.bytes
  have hrecords := h.records
  have hmetadata := h.metadata
  have hcharged : ∀ b, l.Room b →
      l.space.allocated + (l.space.reclaiming + b.size) ≤ l.space.quotaBytes := by
    intro b hfits
    unfold Ledger.Room at hfits
    omega
  cases hc with
  | respace s hs =>
    have := hs.allocated
    have := hs.reclaiming
    have := hs.recordCount
    have := hs.metadataBytes
    constructor
    · show s.allocated + s.reclaiming ≤ s.quotaBytes
      rcases hs.quotaBytes with hq | hq <;> omega
    · show s.recordCount ≤ s.quotaRecords
      rcases hs.quotaRecords with hq | hq <;> omega
    · show s.metadataBytes ≤ s.quotaMetadataBytes
      rcases hs.quotaMetadataBytes with hq | hq <;> omega
  | insert r bs ho =>
    have hb := ho.roomBytes
    constructor
    · show l.space.allocated + r.declaredBytes + l.space.reclaiming ≤ l.space.quotaBytes
      omega
    · exact ho.roomRecords
    · exact ho.roomMetadata
  | record r r' _ hmove => exact ⟨hbytes, hrecords, hmove.within h⟩
  | remove r _ _ _ _ =>
    constructor
    · exact hbytes
    · show l.space.recordCount - 1 ≤ l.space.quotaRecords
      omega
    · show l.space.metadataBytes - r.metadataBytes ≤ l.space.quotaMetadataBytes
      omega
  | clean b a a' _ _ _ _ _ _ _ =>
    unfold ReleaseRule.cleanAttempt
    split_ifs
    · refine ⟨?_, hrecords, hmetadata⟩
      show l.space.allocated + (l.space.reclaiming + -b.size) ≤ l.space.quotaBytes
      omega
    · exact ⟨hbytes, hrecords, hmetadata⟩
  | rearm r b a a' now hr hrb hb ha hab _ _ hw =>
    unfold Ledger.rearm
    split_ifs with hcharge
    · -- A marker of the attempt would contradict that it is cleaned.
      have hclean := hclear b hb r hr hrb hcharge.1 hcharge.2 a ha (hab hm)
      rcases hw hcharge.1 hcharge.2 with hmarks | hw
      · exact absurd (hrest a ha hclean).2 hmarks
      · exact ⟨hcharged b (hroom l b hw), hrecords, hmetadata⟩
    · exact ⟨hbytes, hrecords, hmetadata⟩
  | repair r b a recover now _ _ _ _ _ _ _ _ hw =>
    unfold Attempts.repairBlob
    split_ifs with hdraft hcharge
    · exact ⟨hbytes, hrecords, hmetadata⟩
    · exact ⟨hcharged b (hroom l b (hw hcharge.1 hcharge.2)), hrecords, hmetadata⟩
    · exact ⟨hbytes, hrecords, hmetadata⟩
  | _ => exact ⟨hbytes, hrecords, hmetadata⟩

end Within

/-! ### Transactions -/

/-- What the limits rest on. -/
structure Ledger.Regular (l : Ledger) : Prop where
  accounted : l.Accounted
  rested : l.Rested
  cleared : l.Cleared

variable {w : Allowance} {l l' : Ledger}

theorem Change.regular (hrule : w.rule.Lawful) (hm : w.matched) (h : l.Regular)
    (hc : Change w l l') : l'.Regular where
  accounted := hc.accounted h.accounted
  rested := hc.rested h.rested
  cleared := hc.cleared hrule hm h.accounted.toSound h.rested h.cleared

theorem Ledger.Regular.release {rule : ReleaseRule} (hrule : rule.Lawful) (h : l.Regular)
    (hr : r ∈ l.records) (hlive : r.state.terminal = false) {state : RecordState}
    (ht : state.terminal = true) (now : Time) : (rule.release l r state now).Regular where
  accounted := h.accounted.release hrule hr hlive ht now
  rested := h.rested.release h.accounted.blobs r state now
  cleared := h.cleared.release hrule h.accounted hr hlive state now

theorem Effect.regular (hrule : w.rule.Lawful) (hm : w.matched) (h : l.Regular)
    (he : Effect w l l') : l'.Regular :=
  he.preserves (fun _ _ h hc => hc.regular hrule hm h)
    (fun _ _ _ now h hr hlive ht => h.release hrule hr hlive ht now) h

/-- **A transaction that charges an attachment again only where there is room keeps the
limits.** -/
theorem Effect.within (hrule : w.rule.Lawful) (hm : w.matched)
    (hroom : ∀ m b, w.recharge m b → m.Room b) (hreg : l.Regular) (h : l.Within)
    (he : Effect w l l') : l'.Within := by
  refine (he.preserves (P := fun m => m.Regular ∧ m.Within) ?_ ?_ ⟨hreg, h⟩).2
  · rintro m m' ⟨hr, hw⟩ hc
    exact ⟨hc.regular hrule hm hr, hc.within hm hroom hr.rested hr.cleared hw⟩
  · rintro m r state now ⟨hreg, hw⟩ hr hlive ht
    exact ⟨hreg.release hrule hr hlive ht now, hw.release hreg.accounted hr state now⟩

/-- A new space is within its limits. -/
theorem Db.created_within (spaceId profile : String) (limits : Limits) (creator : Principal)
    (now : Time) :
    (Db.created spaceId profile limits creator now).ledger.Within := by
  have hbytes := limits.bounded limits.quotaBytes (by simp)
  have hrecords := limits.bounded limits.quotaRecords (by simp)
  have hmetadata := limits.bounded limits.quotaMetadataBytes (by simp)
  constructor
  · show (0 : Int) + 0 ≤ limits.quotaBytes
    omega
  · show (0 : Int) ≤ limits.quotaRecords
    omega
  · show (0 : Int) ≤ limits.quotaMetadataBytes
    omega

theorem Db.created_regular (spaceId profile : String) (limits : Limits) (creator : Principal)
    (now : Time) :
    (Db.created spaceId profile limits creator now).ledger.Regular where
  accounted := Db.created_accounted spaceId profile limits creator now
  rested := by simp [Ledger.Rested, Db.created]
  cleared := by simp [Ledger.Cleared, Db.created]

end Hf2l.Exchange
