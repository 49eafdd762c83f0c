import Hf2l.Exchange.Ledger.Admission
import Hf2l.Exchange.Ledger.Markers

/-!
# `Hf2l.Exchange.Ledger.Pinned`: what publication rests on

While a record is not stopped, each of its attachments has at most one attempt that is still
wanted, and an attachment that names an object names that of an attempt which is `verified`.
A record is published when its attachments are verified as declared, and nothing writes to
them after that. `Ledger.Pinned` collects these facts; they need that commits go from state to
state in the order of `_execute` (`Allowance.Orderly`).
-/

set_option autoImplicit false

namespace Hf2l.Exchange

open Lib
open Service (verifiedAsDeclared)

/-- A commit does not touch a verified attempt, and it makes no attempt wanted again. -/
def Allowance.Orderly (w : Allowance) : Prop :=
  ∀ id s s', w.advance id s s' → s ≠ .verified ∧ (s'.active = true → s.active = true)

/-! ### What can become of an attachment -/

/-- What the row of an attachment after a change comes from. -/
inductive Ledger.BlobDescends (w : Allowance) (l : Ledger) (b' : Blob) : Prop
  | fresh (hid : ∃ i, b'.id = l.fresh i) (hrec : b'.recordId = l.fresh 0)
    (hkey : b'.objectKey = none)
  | keep (b : Blob) (t : Time) (hb : b ∈ l.blobs) (h : b' = { b with grantExpiresAt := t })
  | relabel (b : Blob) (s : TransferState) (hb : b ∈ l.blobs) (hd : l.InDraft b)
    (h : b' = { b with state := s })
  | verify (b : Blob) (a : TransferAttempt) (version : Option String) (size : Nat) (sha256 : String)
    (hb : b ∈ l.blobs) (hd : l.InDraft b) (ha : a ∈ l.attempts) (hab : w.matched → a.blobId = b.id)
    (hs : a.state = .verified)
    (h : b' = { b with
      objectKey := some a.objectKey, objectVersion := version, verifiedSize := some size
      verifiedSha256 := some sha256, state := .verified })
  | charge (b : Blob) (s : TransferState) (pending : Bool) (hb : b ∈ l.blobs) (ht : l.Stopped b.id)
    (h : b' = { b with state := s, pendingDeletion := pending })

namespace Ledger

variable {w : Allowance} {l : Ledger}

theorem BlobDescends.refl {b : Blob} (hb : b ∈ l.blobs) : l.BlobDescends w b :=
  .keep b b.grantExpiresAt hb rfl

/-- The columns declared at creation, and the record, stay. -/
theorem BlobDescends.declared {b' : Blob} (h : l.BlobDescends w b') :
    (∃ i, b'.id = l.fresh i) ∧ b'.recordId = l.fresh 0 ∧ b'.objectKey = none ∨
      ∃ b ∈ l.blobs, b'.id = b.id ∧ b'.recordId = b.recordId ∧ b'.size = b.size ∧
        b'.sha256 = b.sha256 := by
  cases h with
  | fresh hid hrec hkey => exact Or.inl ⟨hid, hrec, hkey⟩
  | keep b t hb h | relabel b s hb _ h | verify b a version size sha256 hb _ _ _ _ h
  | charge b s pending hb _ h => exact Or.inr ⟨b, hb, by subst h; exact ⟨rfl, rfl, rfl, rfl⟩⟩

/-- Rows after a write of one attachment. -/
theorem blobDescends_put {b' : Blob} (h : l.BlobDescends w b') :
    ∀ x ∈ Table.put Blob.id b' l.blobs, l.BlobDescends w x := by
  intro x hx
  rcases Table.of_mem_put hx with ⟨hx, -⟩ | rfl
  · exact .refl hx
  · exact h

end Ledger

variable {l l' : Ledger} {w : Allowance}

/-- **Every attachment after a change is new, or its row is written in one of few ways.** -/
theorem Change.blobDescends (h : l.Accounted) (hc : Change w l l') :
    ∀ x ∈ l'.blobs, l.BlobDescends w x := by
  intro x hx
  cases hc with
  | insert r bs ho =>
    rcases List.mem_append.mp hx with hx | hx
    · exact .refl hx
    · have hid : x.id ∈ bs.map Blob.id := List.mem_map_of_mem hx
      rw [ho.ids] at hid
      obtain ⟨i, -, hi⟩ := List.mem_map.mp hid
      exact .fresh ⟨i + 1, hi.symm⟩ ((ho.owner x hx).trans ho.id) (ho.reserved x hx).2.2
  | remove r _ _ _ _ => exact .refl (List.mem_filter.mp hx).1
  | blob b b' hb hm =>
    refine Ledger.blobDescends_put ?_ x hx
    cases hm with
    | expose t => exact .keep b t hb rfl
    | relabel s hd _ => exact .relabel b s hb hd rfl
    | verify a version size sha256 hd ha hab hs =>
      exact .verify b a version size sha256 hb hd ha hab hs rfl
  | start b a hb hd _ _ | restart b a a' new hb hd _ _ _ _ _ _ =>
    exact Ledger.blobDescends_put (.relabel b .initiating hb hd rfl) x hx
  | clean b a a' hb _ _ _ _ _ _ =>
    unfold ReleaseRule.cleanAttempt at hx
    split_ifs at hx with hall
    · -- Only an attachment of a stopped record waits for its deletion.
      obtain ⟨r, hr, hid⟩ := h.owner b hb
      have hterm : r.state.terminal = true := by
        by_contra hlive
        have := ((h.charged b hb r hr hid).live (by simpa using hlive)).1
        simp [hall.2] at this
      exact Ledger.blobDescends_put
        (.charge b .cleaned false hb ⟨b, hb, rfl, r, hr, hid, hterm⟩ rfl) x hx
    · exact .refl hx
  | rearm r b a a' now hr hrb hb _ _ _ _ _ =>
    unfold Ledger.rearm at hx
    split_ifs at hx with hterm
    · exact Ledger.blobDescends_put
        (.charge b .cleanup true hb ⟨b, hb, rfl, r, hr, hrb, hterm.1⟩ rfl) x hx
    · exact .refl hx
  | repair r b a recover now hr hrb hb _ _ _ _ _ _ =>
    unfold Attempts.repairBlob at hx
    split_ifs at hx with hdraft hterm
    · exact Ledger.blobDescends_put (.relabel b .reserved hb ⟨r, hr, hrb, hdraft.1⟩ rfl) x hx
    · exact Ledger.blobDescends_put
        (.charge b .cleanup true hb ⟨b, hb, rfl, r, hr, hrb, hterm.1⟩ rfl) x hx
    · exact .refl hx
  | _ => exact .refl hx

/-! ### What can become of a record -/

/-- What the state of a record after a change comes from. -/
inductive Ledger.RecordDescends (l l' : Ledger) (r' : Record) : Prop
  | fresh (hid : r'.id = l.fresh 0) (hd : r'.state = .draft)
  | keep (r : Record) (hr : r ∈ l.records) (hid : r'.id = r.id) (hs : r'.state = r.state)
  | publish (r : Record) (hr : r ∈ l.records) (hid : r'.id = r.id) (hd : r.state = .draft)
    (hp : r'.state = .published) (hv : ∀ b ∈ l.blobsOf r.id, verifiedAsDeclared b = true)
    (hblobs : l'.blobs = l.blobs)

theorem Change.recordDescends (hc : Change w l l') : ∀ x ∈ l'.records, l.RecordDescends l' x := by
  intro x hx
  have hkeep : x ∈ l.records → l.RecordDescends l' x := fun h => .keep x h rfl rfl
  cases hc with
  | insert r bs ho =>
    rcases Table.mem_concat.mp hx with hx | rfl
    · exact hkeep hx
    · exact .fresh ho.id ho.draft
  | share kind flag =>
    obtain ⟨r, hr, rfl⟩ := List.mem_map.mp hx
    split_ifs <;> exact .keep r hr rfl rfl
  | record r r' hr hm =>
    rcases Table.of_mem_put hx with ⟨hx, -⟩ | rfl
    · exact hkeep hx
    · cases hm with
      | amend metadata size base generation hd _ _ _ | extend t hd => exact .keep r hr rfl rfl
      | publish publishedAt shared generation hd hv => exact .publish r hr rfl hd rfl hv rfl
  | remove r _ _ _ _ => exact hkeep (List.mem_filter.mp hx).1
  | clean b a a' _ _ _ _ _ _ _ =>
    unfold ReleaseRule.cleanAttempt at hx
    split_ifs at hx <;> exact hkeep hx
  | rearm r b a a' now _ _ _ _ _ _ _ _ =>
    unfold Ledger.rearm at hx
    split_ifs at hx <;> exact hkeep hx
  | repair r b a recover now _ _ _ _ _ _ _ _ _ =>
    unfold Attempts.repairBlob at hx
    split_ifs at hx <;> exact hkeep hx
  | _ => exact hkeep hx

/-! ### The invariant -/

namespace Ledger

structure Pinned (l : Ledger) : Prop extends l.Accounted where
  /-- An attempt that is still wanted is an upload. -/
  upload : ∀ a ∈ l.attempts, a.state.active = true → a.operation = .upload
  single : ∀ a ∈ l.attempts, ∀ a' ∈ l.attempts, a.blobId = a'.blobId → a.state.active = true →
    a'.state.active = true → a = a'
  /-- The object that an attachment names is that of a verified attempt. -/
  placed : ∀ b ∈ l.blobs, ¬ l.Stopped b.id → ∀ k, b.objectKey = some k →
    ∃ a ∈ l.attempts, a.blobId = b.id ∧ a.objectKey = k ∧ a.state = .verified
  verified : ∀ r ∈ l.records, r.state = .published → ∀ b ∈ l.blobs, b.recordId = r.id →
    verifiedAsDeclared b = true

variable {l : Ledger}

/-- The record of an attachment in a draft is not stopped. -/
theorem InDraft.not_stopped (hs : l.Sound) {b : Blob} (hb : b ∈ l.blobs) (hd : l.InDraft b) :
    ¬ l.Stopped b.id := by
  rintro ⟨c, hc, hid, r, hr, hrc, hterm⟩
  obtain rfl : c = b := hs.blobs.eq_of_key_eq hc hb hid
  simp [hd.live hs hr hrc] at hterm

end Ledger

section Changes

variable {w : Allowance} {l l' : Ledger}

theorem Evolves.active {x y : Work} (hw : w.Orderly) (h : Evolves w l x y)
    (hy : y.state.active = true) (hx : x.state.active = true → x.operation = .upload) :
    x.state.active = true ∧ y.operation = .upload := by
  cases h with
  | move n _ hm =>
    cases hm with
    | submit hs => exact ⟨by rw [hs]; rfl, hx (by rw [hs]; rfl)⟩
    | supersede hs => simp [Work.superseded, TransferState.active] at hy
    | advance t s z _ _ hadv hz =>
      have hactive : x.state.active = true := (hw _ _ _ hadv).2 hy
      rcases hz with rfl | ⟨rfl, -⟩ <;> exact ⟨hactive, hx hactive⟩
    | _ => exact ⟨hy, hx hy⟩
  | clean _ _ _ => simp [Work.ended, TransferState.active] at hy
  | rearm z _ _ => simp [Work.rearmed, TransferState.active] at hy
  | repair recover _ hs _ =>
    cases recover with
    | false => simp [Work.repaired, TransferState.active] at hy
    | true => exact ⟨by rw [hs rfl]; rfl, rfl⟩

theorem Evolves.stays_verified {x y : Work} (hw : w.Orderly) (h : Evolves w l x y)
    (hv : x.state = .verified) (hlive : ¬ l.Stopped x.blobId) : y.state = .verified := by
  cases h with
  | move n _ hm =>
    cases hm with
    | mark part hs | lease hs => exact hv
    | submit hs | supersede hs => simp [hv] at hs
    | advance t s z _ _ hadv _ => exact absurd hv (hw _ _ _ hadv).1
    | _ => exact hv
  | clean _ _ hadv => exact absurd hv (hw _ _ _ hadv).1
  | rearm z hs _ => simp [hv, TransferState.barred] at hs
  | repair recover _ _ hstop => exact absurd (hstop hv) hlive

/-- The row of a verified attempt stays as long as its record is not stopped. -/
theorem Change.keeps_verified (hw : w.Orderly) (hs : l.Sound) (hc : Change w l l')
    {a : TransferAttempt} (ha : a ∈ l.attempts) (hf : ¬ w.forget a.id) (hv : a.state = .verified)
    (hlive : ¬ l.Stopped a.blobId) :
    ∃ x ∈ l'.attempts, x.blobId = a.blobId ∧ x.objectKey = a.objectKey ∧ x.state = .verified := by
  have hne : a.state ≠ .cleaned := by simp [hv]
  obtain ⟨x, hx, hid⟩ := List.mem_map.mp (hc.keeps_row ha hf (Or.inr ⟨hne, hlive⟩))
  refine ⟨x, hx, ?_⟩
  rcases hc.descends x hx with ⟨b, hi⟩ | ⟨y, hy, hev⟩
  · exact absurd (hid.symm.trans hi.id) ((hs.mintedAttempts a ha).ne_fresh 0)
  · obtain ⟨hsid, hblob, hkey⟩ := hev.same
    obtain rfl : y = a := hs.attempts.eq_of_key_eq hy ha (hsid.symm.trans hid)
    exact ⟨hblob, hkey, hev.stays_verified hw hv hlive⟩

/-- A stopped record stays stopped. -/
theorem Change.stopped (hs : l.Sound) (hc : Change w l l') {b b' : Blob} (hb : b ∈ l.blobs)
    (hb' : b' ∈ l'.blobs) (hrec : b'.recordId = b.recordId) (h : l.Stopped b.id) :
    l'.Stopped b'.id := by
  obtain ⟨c, hcm, hcid, r, hr, hrc, hterm⟩ := h
  obtain rfl : c = b := hs.blobs.eq_of_key_eq hcm hb hcid
  obtain ⟨r', hr', hid'⟩ := (hc.sound hs).owner b' hb'
  refine ⟨b', hb', rfl, r', hr', hid', ?_⟩
  have hsame : r'.id = r.id := hid'.trans (hrec.trans hrc.symm)
  cases hc.recordDescends r' hr' with
  | fresh hid _ => exact absurd (hsame.symm.trans hid) ((hs.mintedRecords r hr).ne_fresh 0)
  | keep x hx hid hst =>
    obtain rfl : x = r := hs.records.eq_of_key_eq hx hr (hid.symm.trans hsame)
    rw [hst]
    exact hterm
  | publish x hx hid hd _ _ _ =>
    obtain rfl : x = r := hs.records.eq_of_key_eq hx hr (hid.symm.trans hsame)
    simp [hd, RecordState.terminal] at hterm

theorem Change.upload (hw : w.Orderly) (h : l.Pinned) (hc : Change w l l') :
    ∀ a ∈ l'.attempts, a.state.active = true → a.operation = .upload := by
  intro x hx hactive
  rcases hc.descends x hx with ⟨b, hi⟩ | ⟨y, hy, hev⟩
  · exact hi.operation
  · exact (hev.active hw hactive (h.upload y hy)).2

theorem Change.single (hw : w.Orderly) (h : l.Pinned) (hc : Change w l l') :
    ∀ x ∈ l'.attempts, ∀ y ∈ l'.attempts, x.blobId = y.blobId → x.state.active = true →
    y.state.active = true → x = y := by
  have hkeyed := (hc.sound h.toSound).attempts
  have hcontinues := hc.continues
  generalize l'.attempts = as at hkeyed hcontinues
  cases hcontinues with
  | evolve _ hev =>
    -- Two wanted attempts come from two wanted attempts.
    intro x hx y hy hblob hax hay
    obtain ⟨x₀, hx₀, hex⟩ := hev x hx
    obtain ⟨y₀, hy₀, hey⟩ := hev y hy
    have hblob₀ : x₀.blobId = y₀.blobId := hex.same.2.1.symm.trans (hblob.trans hey.same.2.1)
    have hsame := h.single x₀ hx₀ y₀ hy₀ hblob₀ (hex.active hw hax (h.upload x₀ hx₀)).1
      (hey.active hw hay (h.upload y₀ hy₀)).1
    subst hsame
    exact hkeyed.eq_of_key_eq hx hy (hex.same.1.trans hey.same.1.symm)
  | start b new hnew hidle =>
    -- No attempt of the attachment was wanted.
    have hnone : ∀ x ∈ l.attempts, x.blobId = new.blobId → x.state.active = true → False := by
      intro x hx hxb hax
      have hmine : x ∈ l.attemptsOf b.id :=
        List.mem_filter.mpr ⟨hx, decide_eq_true (hxb.trans hnew.blobId)⟩
      simp [hidle x hmine (h.upload x hx hax)] at hax
    intro x hx y hy hblob hax hay
    rcases List.mem_append.mp hx with hx | hx <;> rcases List.mem_append.mp hy with hy | hy
    · exact h.single x hx y hy hblob hax hay
    · rw [List.mem_singleton.mp hy] at hblob
      exact (hnone x hx hblob hax).elim
    · rw [List.mem_singleton.mp hx] at hblob
      exact (hnone y hy hblob.symm hay).elim
    · rw [List.mem_singleton.mp hx, List.mem_singleton.mp hy]
  | restart b a a' new ha hab hs ha' hnew =>
    -- The one attempt that was wanted is given up.
    have hidle : a'.state.active = false := by
      rw [show a'.state = .cleanup from congrArg Work.state ha']
      rfl
    have hrest : ∀ x ∈ Table.put TransferAttempt.id a' l.attempts, x.state.active = true →
        x ∈ l.attempts ∧ x.blobId ≠ a.blobId := by
      intro x hx hax
      rcases Table.of_mem_put hx with ⟨hx, hne⟩ | rfl
      · refine ⟨hx, fun hxa => hne ?_⟩
        rw [h.single x hx a ha hxa hax (by rw [hs]; rfl)]
        exact (congrArg Work.id ha').symm
      · simp [hidle] at hax
    have hnb : new.blobId = a.blobId := (show new.blobId = b.id from hnew.blobId).trans hab.symm
    intro x hx y hy hblob hax hay
    rcases List.mem_append.mp hx with hx | hx <;> rcases List.mem_append.mp hy with hy | hy
    · exact h.single x (hrest x hx hax).1 y (hrest y hy hay).1 hblob hax hay
    · rw [List.mem_singleton.mp hy, hnb] at hblob
      exact absurd hblob (hrest x hx hax).2
    · rw [List.mem_singleton.mp hx, hnb] at hblob
      exact absurd hblob.symm (hrest y hy hay).2
    · rw [List.mem_singleton.mp hx, List.mem_singleton.mp hy]

theorem Change.placed (hw : w.Orderly) (hm : w.matched)
    (hf : ∀ a ∈ l.attempts, a.state = .verified → ¬ w.forget a.id) (h : l.Pinned)
    (hc : Change w l l') : ∀ b ∈ l'.blobs,
    ¬ l'.Stopped b.id → ∀ k, b.objectKey = some k →
      ∃ a ∈ l'.attempts, a.blobId = b.id ∧ a.objectKey = k ∧ a.state = .verified := by
  intro b' hb' hlive k hk
  have hs := h.toSound
  -- The object was named before, by the same row.
  have hold : ∀ b ∈ l.blobs, b'.id = b.id → b'.recordId = b.recordId → b.objectKey = some k →
      ∃ a ∈ l'.attempts, a.blobId = b'.id ∧ a.objectKey = k ∧ a.state = .verified := by
    intro b hb hid hrec hbk
    have hlive₀ : ¬ l.Stopped b.id := fun hstop => hlive (hc.stopped hs hb hb' hrec hstop)
    obtain ⟨a, ha, hab, hak, hav⟩ := h.placed b hb hlive₀ k hbk
    obtain ⟨x, hx, hxb, hxk, hxv⟩ := hc.keeps_verified hw hs ha (hf a ha hav) hav (hab ▸ hlive₀)
    exact ⟨x, hx, hxb.trans (hab.trans hid.symm), hxk.trans hak, hxv⟩
  cases hc.blobDescends h.toAccounted b' hb' with
  | fresh _ _ hkey => simp [hkey] at hk
  | keep b t hb he | relabel b s hb _ he | charge b s pending hb _ he =>
    subst he
    exact hold b hb rfl rfl hk
  | verify b a version size sha256 hb hd ha hab hav he =>
    subst he
    have hblob := hab hm
    have hlive₀ : ¬ l.Stopped a.blobId := hblob ▸ hd.not_stopped hs hb
    obtain ⟨x, hx, hxb, hxk, hxv⟩ := hc.keeps_verified hw hs ha (hf a ha hav) hav hlive₀
    exact ⟨x, hx, hxb.trans hblob, hxk.trans (Option.some.inj hk), hxv⟩

theorem Change.verified (h : l.Pinned) (hc : Change w l l') :
    ∀ r ∈ l'.records, r.state = .published → ∀ b ∈ l'.blobs, b.recordId = r.id →
    verifiedAsDeclared b = true := by
  intro r' hr' hp' b' hb' hrec'
  have hs := h.toSound
  cases hc.recordDescends r' hr' with
  | fresh _ hd => simp [hd] at hp'
  | publish r hr hid hd _ hv hblobs =>
    rw [hblobs] at hb'
    exact hv b' (List.mem_filter.mpr ⟨hb', decide_eq_true (hrec'.trans hid)⟩)
  | keep r hr hid hst =>
    have hp : r.state = .published := hst.symm.trans hp'
    -- The record of the row is published, neither a draft nor stopped.
    have hdraft : ∀ b : Blob, b.recordId = b'.recordId → ¬ l.InDraft b := by
      rintro b hb ⟨d, hd, hdid, hds⟩
      rw [hs.records.eq_of_key_eq hd hr (hdid.trans (hb.trans (hrec'.trans hid))), hp] at hds
      simp at hds
    cases hc.blobDescends h.toAccounted b' hb' with
    | fresh _ hrec _ =>
      exact absurd (hid.symm.trans (hrec'.symm.trans hrec)) ((hs.mintedRecords r hr).ne_fresh 0)
    | keep b t hb he =>
      subst he
      exact h.verified r hr hp b hb (hrec'.trans hid)
    | relabel b s hb hd he | verify b a version size sha256 hb hd _ _ _ he =>
      subst he
      exact absurd hd (hdraft b rfl)
    | charge b s pending hb hstop he =>
      subst he
      obtain ⟨c, hcm, hcid, x, hx, hxc, hterm⟩ := hstop
      obtain rfl : c = b := hs.blobs.eq_of_key_eq hcm hb hcid
      rw [hs.records.eq_of_key_eq hx hr (hxc.trans (hrec'.trans hid)), hp] at hterm
      simp [RecordState.terminal] at hterm

theorem Change.pinned (hw : w.Orderly) (hm : w.matched)
    (hf : ∀ a ∈ l.attempts, a.state = .verified → ¬ w.forget a.id) (h : l.Pinned)
    (hc : Change w l l') : l'.Pinned where
  toAccounted := hc.accounted h.toAccounted
  upload := hc.upload hw h
  single := hc.single hw h
  placed := hc.placed hw hm hf h
  verified := hc.verified h

end Changes

/-! ### Stopping a record -/

theorem Ledger.Pinned.release (h : l.Pinned) {rule : ReleaseRule} (hrule : rule.Lawful) {r : Record}
    (hr : r ∈ l.records) (hlive : r.state.terminal = false) {state : RecordState}
    (ht : state.terminal = true) (now : Time) : (rule.release l r state now).Pinned where
  toAccounted := h.toAccounted.release hrule hr hlive ht now
  upload := by
    intro x hx hax
    obtain ⟨a, ha, he | he⟩ := ReleaseRule.release_work h.blobs r state now x hx
    · have hactive : a.state.active = true := (congrArg (fun y => y.state.active) he).symm.trans hax
      exact (congrArg Work.operation he).trans (h.upload a ha hactive)
    · rw [show x.state = .cleanup from congrArg Work.state he] at hax
      simp [TransferState.active] at hax
  single := by
    -- An attempt that is still wanted is not released.
    have hkept : ∀ x ∈ (rule.release l r state now).attempts, x.state.active = true →
        ∃ a ∈ l.attempts, x.work = a.work := by
      intro x hx hax
      obtain ⟨a, ha, he | he⟩ := ReleaseRule.release_work h.blobs r state now x hx
      · exact ⟨a, ha, he⟩
      · rw [show x.state = .cleanup from congrArg Work.state he] at hax
        simp [TransferState.active] at hax
    intro x hx y hy hblob hax hay
    obtain ⟨a, ha, hea⟩ := hkept x hx hax
    obtain ⟨b, hb, heb⟩ := hkept y hy hay
    have hsame := h.single a ha b hb
      ((congrArg Work.blobId hea).symm.trans (hblob.trans (congrArg Work.blobId heb)))
      ((congrArg (fun z => z.state.active) hea).symm.trans hax)
      ((congrArg (fun z => z.state.active) heb).symm.trans hay)
    subst hsame
    exact (h.toSound.release rule r state now).attempts.eq_of_key_eq hx hy
      (congrArg Work.id (hea.trans heb.symm))
  placed := by
    intro b' hb' hnot k hk
    rw [ReleaseRule.release_blobs state now h.blobs] at hb'
    obtain ⟨b, hb, rfl⟩ := List.mem_map.mp hb'
    by_cases hrb : b.recordId = r.id
    · -- The record of the attachment is the one that is stopped.
      refine absurd ⟨_, ?_, rfl, r.stopped state, ?_, ?_, ht⟩ hnot
      · rw [ReleaseRule.release_blobs state now h.blobs]
        exact hb'
      · rw [ReleaseRule.release_records]
        exact Table.mem_put_self hr rfl
      · unfold ReleaseRule.releasedBlob
        rw [if_pos hrb, ReleaseRule.released_recordId]
        exact hrb.symm
    · have hsame : rule.releasedBlob l r now b = b := if_neg hrb
      rw [hsame] at hnot hk ⊢
      obtain ⟨hmem, hattempts⟩ := (show _ ∧ _ from ReleaseRule.release_other h.toSound hb hrb)
      have hlive₀ : ¬ l.Stopped b.id := by
        rintro ⟨c, hc, hcid, x, hx, hxc, hxt⟩
        obtain rfl : c = b := h.blobs.eq_of_key_eq hc hb hcid
        refine hnot ⟨c, hmem, rfl, x, ?_, hxc, hxt⟩
        rw [ReleaseRule.release_records]
        exact Table.mem_put_of_ne hx fun e => hrb (hxc.symm.trans e)
      obtain ⟨a, ha, hab, hak, hav⟩ := h.placed b hb hlive₀ k hk
      have hmine : a ∈ l.attemptsOf b.id := List.mem_filter.mpr ⟨ha, decide_eq_true hab⟩
      rw [← hattempts] at hmine
      exact ⟨a, (List.mem_filter.mp hmine).1, hab, hak, hav⟩
  verified := by
    intro x hx hp b' hb' hrec
    rw [ReleaseRule.release_records] at hx
    rw [ReleaseRule.release_blobs state now h.blobs] at hb'
    obtain ⟨b, hb, rfl⟩ := List.mem_map.mp hb'
    rcases Table.of_mem_put hx with ⟨hx, hne⟩ | rfl
    · have hrb : b.recordId ≠ r.id := by
        intro hrb
        unfold ReleaseRule.releasedBlob at hrec
        rw [if_pos hrb, ReleaseRule.released_recordId] at hrec
        exact hne (hrec.symm.trans hrb)
      have hsame : rule.releasedBlob l r now b = b := if_neg hrb
      rw [hsame] at hrec ⊢
      exact h.verified x hx hp b hb hrec
    · rw [show (r.stopped state).state = state from rfl] at hp
      simp [hp, RecordState.terminal] at ht

/-- **Every transaction keeps what publication rests on.** -/
theorem Effect.pinned (hrule : w.rule.Lawful) (hw : w.Orderly) (hm : w.matched)
    (hf : ∀ id, ¬ w.forget id) (h : l.Pinned) (he : Effect w l l') : l'.Pinned :=
  he.preserves (fun _ _ hl hc => hc.pinned hw hm (fun a _ _ => hf a.id) hl)
    (fun _ _ _ now hl hr hlive ht => hl.release hrule hr hlive ht now) h

/-- **The declared size and digest of an attachment never change.** -/
theorem Effect.declared (hrule : w.rule.Lawful) (h : l.Accounted) (he : Effect w l l')
    {b b' : Blob} (hb : b ∈ l.blobs) (hb' : b' ∈ l'.blobs) (hid : b'.id = b.id) :
    b'.size = b.size ∧ b'.sha256 = b.sha256 := by
  have hall := he.preserves (P := fun m => m.Accounted ∧ l.minted ≤ m.minted ∧
    ∀ x ∈ m.blobs, x.id = b.id → x.size = b.size ∧ x.sha256 = b.sha256) ?_ ?_ ⟨h, le_refl _, ?_⟩
  · exact hall.2.2 b' hb' hid
  · rintro m m' ⟨hm, hle, hsame⟩ hc
    refine ⟨hc.accounted hm, hle.trans hc.minted_le, fun x hx hxid => ?_⟩
    rcases (hc.blobDescends hm x hx).declared with ⟨⟨i, hi⟩, -⟩ | ⟨y, hy, hyid, -, hsize, hsha⟩
    · exact absurd (hxid.symm.trans hi) (((h.mintedBlobs b hb).mono hle).ne_fresh i)
    · obtain ⟨h1, h2⟩ := hsame y hy (hyid.symm.trans hxid)
      exact ⟨hsize.trans h1, hsha.trans h2⟩
  · rintro m r state now ⟨hm, hle, hsame⟩ hr hlive ht
    refine ⟨hm.release hrule hr hlive ht now, by rwa [ReleaseRule.release_minted],
      fun x hx hxid => ?_⟩
    rw [ReleaseRule.release_blobs state now hm.blobs] at hx
    obtain ⟨y, hy, rfl⟩ := List.mem_map.mp hx
    unfold ReleaseRule.releasedBlob at hxid ⊢
    split_ifs at hxid ⊢
    · rw [ReleaseRule.released_size, ReleaseRule.released_sha256]
      exact hsame y hy (by rwa [ReleaseRule.released_id] at hxid)
    · exact hsame y hy hxid
  · intro x hx hxid
    rw [h.blobs.eq_of_key_eq hx hb hxid]
    exact ⟨rfl, rfl⟩

end Hf2l.Exchange
