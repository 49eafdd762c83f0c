import Hf2l.Exchange.Ledger.Change
import Std.Data.String.ToNat

/-!
# `Hf2l.Exchange.Ledger.Sound`: keys and foreign keys

The constraints of the schema that every other invariant rests on: the primary keys of
records, attachments and attempts, the foreign keys from an attachment to its record and from
an attempt to its attachment, and that every identifier in use has been drawn, so that a new
one is new.
-/

set_option autoImplicit false

namespace Hf2l.Exchange

open Lib

namespace Ledger

@[simp] theorem addReclaiming_zero (l : Ledger) : l.addReclaiming 0 = l := by
  simp [addReclaiming]

@[simp] theorem addMetadataBytes_zero (l : Ledger) : l.addMetadataBytes 0 = l := by
  simp [addMetadataBytes]

/-- Re-arming an attempt writes its row again. -/
theorem rearm_putAttempt (l : Ledger) (r : Record) (b : Blob) (a : TransferAttempt) (now : Time) :
    (l.putAttempt a).rearm r b a now = l.rearm r b a now := by
  have hput : (l.putAttempt a).putAttempt (a.rearmed now) = l.putAttempt (a.rearmed now) := by
    unfold putAttempt
    simp only [Table.put_put (show a.id = (a.rearmed now).id from rfl)]
  unfold rearm
  rw [hput]

/-- The identifier has been drawn. -/
def Minted (l : Ledger) (id : Id) : Prop := ∃ k < l.minted, id = Nat.repr k

theorem Minted.mono {l l' : Ledger} {id : Id} (h : l.Minted id) (hle : l.minted ≤ l'.minted) :
    l'.Minted id := by
  obtain ⟨k, hk, he⟩ := h
  exact ⟨k, by omega, he⟩

/-- A new identifier is not one that has been drawn. -/
theorem Minted.ne_fresh {l : Ledger} {id : Id} (h : l.Minted id) (i : Nat) : id ≠ l.fresh i := by
  obtain ⟨k, hk, rfl⟩ := h
  intro he
  have := Nat.repr_inj.mp he
  omega

theorem fresh_inj {l : Ledger} {i j : Nat} (h : l.fresh i = l.fresh j) : i = j := by
  have := Nat.repr_inj.mp h
  omega

theorem minted_fresh {l l' : Ledger} {i : Nat} (h : l.minted + i < l'.minted) :
    l'.Minted (l.fresh i) :=
  ⟨l.minted + i, h, rfl⟩

structure Sound (l : Ledger) : Prop where
  records : Table.Keyed Record.id l.records
  blobs : Table.Keyed Blob.id l.blobs
  attempts : Table.Keyed TransferAttempt.id l.attempts
  mintedRecords : ∀ r ∈ l.records, l.Minted r.id
  mintedBlobs : ∀ b ∈ l.blobs, l.Minted b.id
  mintedAttempts : ∀ a ∈ l.attempts, l.Minted a.id
  owner : ∀ b ∈ l.blobs, ∃ r ∈ l.records, r.id = b.recordId
  target : ∀ a ∈ l.attempts, ∃ b ∈ l.blobs, b.id = a.blobId

namespace Sound

variable {l : Ledger}

/-! ### Writes -/

section
variable (h : Sound l)
include h

theorem draw (n : Nat) : Sound (l.draw n) where
  records := h.records
  blobs := h.blobs
  attempts := h.attempts
  mintedRecords r hr := (h.mintedRecords r hr).mono (Nat.le_add_right _ n)
  mintedBlobs b hb := (h.mintedBlobs b hb).mono (Nat.le_add_right _ n)
  mintedAttempts a ha := (h.mintedAttempts a ha).mono (Nat.le_add_right _ n)
  owner := h.owner
  target := h.target

theorem respace (s : Space) : Sound { l with space := s } := { h with }

/-- An update of the records in place that keeps their identifiers. -/
theorem mapRecords {f : Record → Record} (hf : ∀ r ∈ l.records, (f r).id = r.id) :
    Sound { l with records := l.records.map f } where
  records := h.records.map hf
  blobs := h.blobs
  attempts := h.attempts
  mintedRecords := by
    intro r' hr'
    obtain ⟨r, hr, rfl⟩ := List.mem_map.mp hr'
    exact hf r hr ▸ h.mintedRecords r hr
  mintedBlobs := h.mintedBlobs
  mintedAttempts := h.mintedAttempts
  owner := by
    intro b hb
    obtain ⟨r, hr, he⟩ := h.owner b hb
    exact ⟨f r, List.mem_map_of_mem hr, (hf r hr).trans he⟩
  target := h.target

/-- An update of the attachments in place that keeps their keys. -/
theorem mapBlobs {f : Blob → Blob}
    (hf : ∀ b ∈ l.blobs, (f b).id = b.id ∧ (f b).recordId = b.recordId) :
    Sound { l with blobs := l.blobs.map f } where
  records := h.records
  blobs := h.blobs.map fun b hb => (hf b hb).1
  attempts := h.attempts
  mintedRecords := h.mintedRecords
  mintedBlobs := by
    intro b' hb'
    obtain ⟨b, hb, rfl⟩ := List.mem_map.mp hb'
    exact (hf b hb).1 ▸ h.mintedBlobs b hb
  mintedAttempts := h.mintedAttempts
  owner := by
    intro b' hb'
    obtain ⟨b, hb, rfl⟩ := List.mem_map.mp hb'
    rw [(hf b hb).2]
    exact h.owner b hb
  target := by
    intro a ha
    obtain ⟨b, hb, he⟩ := h.target a ha
    exact ⟨f b, List.mem_map_of_mem hb, (hf b hb).1.trans he⟩

/-- An update of the attempts in place that keeps their keys. -/
theorem mapAttempts {f : TransferAttempt → TransferAttempt}
    (hf : ∀ a ∈ l.attempts, (f a).id = a.id ∧ (f a).blobId = a.blobId) :
    Sound { l with attempts := l.attempts.map f } where
  records := h.records
  blobs := h.blobs
  attempts := h.attempts.map fun a ha => (hf a ha).1
  mintedRecords := h.mintedRecords
  mintedBlobs := h.mintedBlobs
  mintedAttempts := by
    intro a' ha'
    obtain ⟨a, ha, rfl⟩ := List.mem_map.mp ha'
    exact (hf a ha).1 ▸ h.mintedAttempts a ha
  owner := h.owner
  target := by
    intro a' ha'
    obtain ⟨a, ha, rfl⟩ := List.mem_map.mp ha'
    rw [(hf a ha).2]
    exact h.target a ha

theorem putRecord (r' : Record) : Sound (l.putRecord r') := by
  refine h.mapRecords fun x _ => ?_
  split_ifs with hxr
  · exact hxr.symm
  · rfl

theorem putBlob {b b' : Blob} (hb : b ∈ l.blobs) (he : b'.id = b.id)
    (hr : b'.recordId = b.recordId) : Sound (l.putBlob b') := by
  refine h.mapBlobs fun x hx => ?_
  split_ifs with hxb
  · rw [h.blobs.eq_of_key_eq hx hb (hxb.trans he)]
    exact ⟨he, hr⟩
  · exact ⟨rfl, rfl⟩

theorem putAttempt {a a' : TransferAttempt} (ha : a ∈ l.attempts) (he : a'.id = a.id)
    (hb : a'.blobId = a.blobId) : Sound (l.putAttempt a') := by
  refine h.mapAttempts fun x hx => ?_
  split_ifs with hxa
  · rw [h.attempts.eq_of_key_eq hx ha (hxa.trans he)]
    exact ⟨he, hb⟩
  · exact ⟨rfl, rfl⟩

theorem filterAttempts (keep : TransferAttempt → Bool) :
    Sound { l with attempts := l.attempts.filter keep } where
  records := h.records
  blobs := h.blobs
  attempts := h.attempts.filter keep
  mintedRecords := h.mintedRecords
  mintedBlobs := h.mintedBlobs
  mintedAttempts a ha := h.mintedAttempts a (List.mem_filter.mp ha).1
  owner := h.owner
  target a ha := h.target a (List.mem_filter.mp ha).1

theorem openAttempt {b : Blob} {a : TransferAttempt} (hb : b ∈ l.blobs)
    (ha : a.id = l.fresh 0) (hab : a.blobId = b.id) : Sound (l.openAttempt b a) := by
  have hinsert : Sound { l with attempts := l.attempts ++ [a], minted := l.minted + 2 } :=
    { records := h.records
      blobs := h.blobs
      attempts := h.attempts.concat fun x hx => ha ▸ (h.mintedAttempts x hx).ne_fresh 0
      mintedRecords := fun r hr => (h.mintedRecords r hr).mono (Nat.le_add_right _ 2)
      mintedBlobs := fun b hb => (h.mintedBlobs b hb).mono (Nat.le_add_right _ 2)
      mintedAttempts := by
        intro x hx
        rcases Table.mem_concat.mp hx with hx | rfl
        · exact (h.mintedAttempts x hx).mono (Nat.le_add_right _ 2)
        · rw [ha]
          exact minted_fresh (by simp)
      owner := h.owner
      target := by
        intro x hx
        rcases Table.mem_concat.mp hx with hx | rfl
        · exact h.target x hx
        · rw [hab]
          exact ⟨b, hb, rfl⟩ }
  exact hinsert.putBlob hb rfl rfl

end

/-! ### Records -/

theorem insertRecord (h : Sound l) {r : Record} {bs : List Blob} (ho : Opened l r bs) :
    Sound ((l.insertRecord r bs).draw (1 + bs.length)) := by
  have hid : ∀ b ∈ bs, ∃ i < bs.length, b.id = l.fresh (i + 1) := by
    intro b hb
    have hmem : b.id ∈ bs.map Blob.id := List.mem_map_of_mem hb
    rw [ho.ids] at hmem
    obtain ⟨i, hi, he⟩ := List.mem_map.mp hmem
    exact ⟨i, List.mem_range.mp hi, he.symm⟩
  have hbs : Table.Keyed Blob.id bs := by
    unfold Table.Keyed
    rw [ho.ids]
    refine List.Nodup.map ?_ List.nodup_range
    intro i j hij
    have := fresh_inj hij
    omega
  exact
    { records := h.records.concat fun x hx => ho.id ▸ (h.mintedRecords x hx).ne_fresh 0
      blobs := by
        refine h.blobs.append hbs fun x hx y hy => ?_
        obtain ⟨i, -, he⟩ := hid y hy
        exact he ▸ (h.mintedBlobs x hx).ne_fresh (i + 1)
      attempts := h.attempts
      mintedRecords := by
        intro x hx
        rcases Table.mem_concat.mp hx with hx | rfl
        · exact (h.mintedRecords x hx).mono (Nat.le_add_right _ _)
        · rw [ho.id]
          exact minted_fresh (by simp only [Ledger.draw, Ledger.insertRecord]; omega)
      mintedBlobs := by
        intro x hx
        rcases List.mem_append.mp hx with hx | hx
        · exact (h.mintedBlobs x hx).mono (Nat.le_add_right _ _)
        · obtain ⟨i, hi, he⟩ := hid x hx
          rw [he]
          exact minted_fresh (by simp only [Ledger.draw, Ledger.insertRecord]; omega)
      mintedAttempts := fun a ha => (h.mintedAttempts a ha).mono (Nat.le_add_right _ _)
      owner := by
        intro x hx
        rcases List.mem_append.mp hx with hx | hx
        · obtain ⟨y, hy, he⟩ := h.owner x hx
          exact ⟨y, List.mem_append_left _ hy, he⟩
        · exact ⟨r, List.mem_append_right _ List.mem_cons_self, (ho.owner x hx).symm⟩
      target := by
        intro a ha
        obtain ⟨b, hb, he⟩ := h.target a ha
        exact ⟨b, List.mem_append_left _ hb, he⟩ }

theorem removeRecord (h : Sound l) (r : Record) : Sound (l.removeRecord r) where
  records := h.records.filter _
  blobs := h.blobs.filter _
  attempts := h.attempts.filter _
  mintedRecords x hx := h.mintedRecords x (List.mem_filter.mp hx).1
  mintedBlobs x hx := h.mintedBlobs x (List.mem_filter.mp hx).1
  mintedAttempts x hx := h.mintedAttempts x (List.mem_filter.mp hx).1
  owner := by
    intro b hb
    obtain ⟨hb, hne⟩ := List.mem_filter.mp hb
    obtain ⟨x, hx, he⟩ := h.owner b hb
    exact ⟨x, List.mem_filter.mpr ⟨hx, by rw [he]; exact hne⟩, he⟩
  target := by
    intro a ha
    obtain ⟨ha, hne⟩ := List.mem_filter.mp ha
    obtain ⟨b, hb, he⟩ := h.target a ha
    -- The attachment of an attempt that stays is not one of the record.
    refine ⟨b, List.mem_filter.mpr ⟨hb, ?_⟩, he⟩
    by_contra hrec
    refine of_decide_eq_true hne (List.mem_map.mpr ⟨b, List.mem_filter.mpr ⟨hb, ?_⟩, he⟩)
    simpa using hrec

theorem release (h : Sound l) (rule : ReleaseRule) (r : Record) (state : RecordState) (now : Time) :
    Sound (rule.release l r state now) := by
  have hblobs : ∀ b ∈ l.blobs, (rule.releasedBlob l r now b).id = b.id ∧
      (rule.releasedBlob l r now b).recordId = b.recordId := by
    intro b _
    unfold ReleaseRule.releasedBlob
    split_ifs <;> simp
  have hattempts : ∀ a ∈ l.attempts, (rule.releasedAttempt l r now a).id = a.id ∧
      (rule.releasedAttempt l r now a).blobId = a.blobId := by
    intro a _
    unfold ReleaseRule.releasedAttempt
    split
    · split_ifs <;> simp
    · simp
  have hs := ((h.putRecord (r.stopped state)).mapBlobs
    hblobs).mapAttempts hattempts
  have he : rule.release l r state now = { (rule.release l r state now) with
      records := Table.put Record.id (r.stopped state) l.records
      blobs := l.blobs.map (rule.releasedBlob l r now)
      attempts := l.attempts.map (rule.releasedAttempt l r now)
      minted := l.minted } := by
    rw [← ReleaseRule.release_blobs state now h.blobs,
      ← ReleaseRule.release_attempts state now h.blobs, ← ReleaseRule.release_records,
      ← ReleaseRule.release_minted]
  rw [he]
  exact { hs with }

end Sound

end Ledger

/-! ### Changes keep the constraints -/

variable {l : Ledger} {w : Allowance}

theorem Move.same {x y : Work} {n : Nat} (h : Move w l x n y) :
    y.id = x.id ∧ y.blobId = x.blobId ∧ y.objectKey = x.objectKey := by
  cases h with
  | advance t s z _ _ _ hz => rcases hz with rfl | ⟨rfl, _⟩ <;> exact ⟨rfl, rfl, rfl⟩
  | _ => exact ⟨rfl, rfl, rfl⟩

theorem BlobMove.same {b b' : Blob} (h : BlobMove w l b b') :
    b'.id = b.id ∧ b'.recordId = b.recordId ∧ b'.size = b.size := by
  cases h <;> exact ⟨rfl, rfl, rfl⟩

theorem RecordMove.same {r r' : Record} (h : RecordMove w l r r') :
    r'.id = r.id ∧ r'.declaredBytes = r.declaredBytes := by
  cases h <;> exact ⟨rfl, rfl⟩

theorem Work.keys_of_eq {a a' : TransferAttempt} {x : Work} (h : a'.work = x)
    (hx : x.id = a.id ∧ x.blobId = a.blobId) : a'.id = a.id ∧ a'.blobId = a.blobId :=
  ⟨(congrArg Work.id h).trans hx.1, (congrArg Work.blobId h).trans hx.2⟩

theorem Change.sound {l' : Ledger} (h : l.Sound) (hc : Change w l l') : l'.Sound := by
  cases hc with
  | mint n => exact h.draw n
  | respace s _ => exact h.respace s
  | insert r bs ho => exact h.insertRecord ho
  | share kind flag =>
    refine h.mapRecords fun r _ => ?_
    split_ifs <;> rfl
  | record r r' _ _ => exact (h.putRecord r').respace _
  | remove r _ _ _ _ => exact h.removeRecord r
  | blob b b' hb hm => exact h.putBlob hb hm.same.1 hm.same.2.1
  | start b a hb _ ha _ => exact h.openAttempt hb ha.id ha.blobId
  | restart b a a' new hb _ ha _ _ _ ha' hnew =>
    have hk := Work.keys_of_eq (a := a) ha' ⟨rfl, rfl⟩
    exact (h.putAttempt ha hk.1 hk.2).openAttempt hb hnew.id hnew.blobId
  | attempt a a' n ha hm => exact (h.putAttempt ha hm.same.1 hm.same.2.1).draw n
  | touch f hf =>
    refine h.mapAttempts fun a _ => ?_
    rcases hf a with he | he <;> exact Work.keys_of_eq he ⟨rfl, rfl⟩
  | clean b a a' hb ha _ _ _ _ ha' =>
    have hk := Work.keys_of_eq (a := a) ha' ⟨rfl, rfl⟩
    have h' := h.putAttempt ha hk.1 hk.2
    unfold ReleaseRule.cleanAttempt
    split_ifs
    · exact (h'.putBlob (b := b) hb (by rfl) (by rfl)).respace _
    · exact h'
  | rearm r b a a' now hr hrb hb ha _ _ ha' _ =>
    have hk : a'.id = a.id ∧ a'.blobId = a.blobId := by
      rcases ha' with he | ⟨t, _, _, he⟩ <;> exact Work.keys_of_eq he ⟨rfl, rfl⟩
    have h' : (l.putAttempt (a'.rearmed now)).Sound := h.putAttempt ha hk.1 hk.2
    unfold Ledger.rearm
    split_ifs
    · exact (h'.putBlob (b := b) hb (by rfl) (by rfl)).respace _
    · exact h'
  | repair r b a recover now _ _ hb ha _ _ _ _ _ =>
    have h' : (l.putAttempt (Attempts.repaired a b recover now)).Sound := h.putAttempt ha rfl rfl
    unfold Attempts.repairBlob
    split_ifs
    · exact h'.putBlob (b := b) hb (by rfl) (by rfl)
    · exact (h'.putBlob (b := b) hb (by rfl) (by rfl)).respace _
    · exact h'
  | forget keep _ => exact h.filterAttempts keep

theorem Effect.sound {l' : Ledger} (h : l.Sound) (he : Effect w l l') : l'.Sound :=
  he.preserves (fun _ _ h hc => hc.sound h)
    (fun _ r state now h _ _ _ => h.release w.rule r state now) h

end Hf2l.Exchange
