import Hf2l.Exchange.Store.Lifecycle

/-!
# `Hf2l.Exchange.Ledger.Release`: what stopping a record does to each row

`ReleaseRule.release` is a loop over the attachments of the record. Each pass writes one
attachment, its attempts and a counter, and reads the attempts that the passes before it may
have written. This module gives the loop in closed form: every attachment and every attempt
after it is a function of the row before it (`released`, `releasedAttempt`), and the counters
move by the totals over the attachments.

The passes do not interfere because each one touches the attempts of its own attachment only
(`attemptsOf_releaseBlob`); this is the one fact the induction rests on.
-/

set_option autoImplicit false

namespace Hf2l.Exchange

/-- The space row with its byte counters moved. -/
def Space.moved (s : Space) (allocated reclaiming : Int) : Space :=
  { s with allocated := s.allocated + allocated, reclaiming := s.reclaiming + reclaiming }

namespace ReleaseRule

open Lib

variable (rule : ReleaseRule)

/-! ### One pass -/

/-- The pass charges the attachment, whose attempts are given. -/
def charges (attempts : List TransferAttempt) (b : Blob) : Bool :=
  !rule.done b && !rule.absent attempts

/-- The bytes the pass charges. -/
def charge (attempts : List TransferAttempt) (b : Blob) : Int :=
  if rule.charges attempts b then b.size else 0

section
variable (now : Time) (attempts : List TransferAttempt) (b : Blob)

/-- The attachment after its pass. -/
def released : Blob :=
  if rule.done b then b
  else if rule.absent attempts then { b with state := .cleaned }
  else { b with
    pendingDeletion := true, state := rule.label b.state, expiresAt := max now b.grantExpiresAt }

@[simp] theorem released_id : (rule.released now attempts b).id = b.id := by
  unfold released
  split_ifs <;> rfl

@[simp] theorem released_recordId : (rule.released now attempts b).recordId = b.recordId := by
  unfold released
  split_ifs <;> rfl

@[simp] theorem released_size : (rule.released now attempts b).size = b.size := by
  unfold released
  split_ifs <;> rfl

@[simp] theorem released_sha256 : (rule.released now attempts b).sha256 = b.sha256 := by
  unfold released
  split_ifs <;> rfl

end

@[simp] theorem releaseAttempt_id (now : Time) (b : Blob) (a : TransferAttempt) :
    (rule.releaseAttempt now b a).id = a.id := by
  unfold releaseAttempt
  split_ifs <;> rfl

@[simp] theorem releaseAttempt_blobId (now : Time) (b : Blob) (a : TransferAttempt) :
    (rule.releaseAttempt now b a).blobId = a.blobId := by
  unfold releaseAttempt
  split_ifs <;> rfl

variable {rule}

variable {l : Ledger} {bs : List Blob}

theorem releaseBlob_blobs {b : Blob} (hk : Table.Keyed Blob.id l.blobs) (hb : b ∈ l.blobs)
    (now : Time) :
    (rule.releaseBlob now l b).blobs =
      Table.put Blob.id (rule.released now (l.attemptsOf b.id) b) l.blobs := by
  unfold releaseBlob released
  split_ifs
  · exact (hk.put_self hb).symm
  · rfl
  · rfl

section
variable (l : Ledger) (b : Blob) (now : Time)

theorem releaseBlob_attempts : (rule.releaseBlob now l b).attempts = l.attempts.map fun a =>
      if a.blobId = b.id ∧ rule.charges (l.attemptsOf b.id) b then rule.releaseAttempt now b a
      else a := by
  unfold releaseBlob charges
  split_ifs with h1 h2
  · simp [h1]
  · simp [h2, Ledger.putBlob]
  · simp [h1, h2, Ledger.mapAttempts, Ledger.putBlob, Ledger.addReclaiming]

theorem releaseBlob_space : (rule.releaseBlob now l b).space =
      { l.space with reclaiming := l.space.reclaiming + rule.charge (l.attemptsOf b.id) b } := by
  unfold releaseBlob charge charges
  split_ifs with h1 h2 h3 h4 h5 <;>
    simp_all [Ledger.putBlob, Ledger.mapAttempts, Ledger.addReclaiming]

@[simp] theorem releaseBlob_records : (rule.releaseBlob now l b).records = l.records := by
  unfold releaseBlob
  split_ifs <;> rfl

@[simp] theorem releaseBlob_minted : (rule.releaseBlob now l b).minted = l.minted := by
  unfold releaseBlob
  split_ifs <;> rfl

end

/-- A pass leaves the attempts of the other attachments alone. -/
theorem attemptsOf_releaseBlob {b : Blob} {now : Time} {id : Id} (hne : id ≠ b.id) :
    (rule.releaseBlob now l b).attemptsOf id = l.attemptsOf id := by
  have hid : ∀ a : TransferAttempt, (if a.blobId = b.id ∧ rule.charges (l.attemptsOf b.id) b = true
      then rule.releaseAttempt now b a else a).blobId = a.blobId := by
    intro a
    split_ifs
    · simp
    · rfl
  unfold Ledger.attemptsOf
  rw [releaseBlob_attempts]
  refine Table.filter_map_eq (fun a _ => by rw [hid]) fun a _ ha => ?_
  have hb : ¬ a.blobId = b.id := fun e => hne (by rw [← of_decide_eq_true ha, e])
  rw [if_neg fun h => hb h.1]

/-! ### The loop -/

theorem foldl_releaseBlob_records (now : Time) (bs : List Blob) (l : Ledger) :
    (bs.foldl (rule.releaseBlob now) l).records = l.records := by
  induction bs generalizing l with
  | nil => rfl
  | cons b bs ih => rw [List.foldl_cons, ih, releaseBlob_records]

theorem foldl_releaseBlob_minted (now : Time) (bs : List Blob) (l : Ledger) :
    (bs.foldl (rule.releaseBlob now) l).minted = l.minted := by
  induction bs generalizing l with
  | nil => rfl
  | cons b bs ih => rw [List.foldl_cons, ih, releaseBlob_minted]

theorem foldl_releaseBlob_space (now : Time) (hbs : Table.Keyed Blob.id bs)
    (l : Ledger) : (bs.foldl (rule.releaseBlob now) l).space =
      { l.space with reclaiming := l.space.reclaiming +
          Table.total (fun b => rule.charge (l.attemptsOf b.id) b) bs } := by
  induction bs generalizing l with
  | nil => simp
  | cons b bs ih =>
    obtain ⟨hb, hbs⟩ := List.nodup_cons.mp hbs
    -- The other attachments are charged as they were before this pass.
    have hrest : Table.total
        (fun c => rule.charge ((rule.releaseBlob now l b).attemptsOf c.id) c) bs =
        Table.total (fun c => rule.charge (l.attemptsOf c.id) c) bs := by
      refine Table.total_congr fun c hc => ?_
      rw [attemptsOf_releaseBlob fun e => hb (e ▸ List.mem_map_of_mem hc)]
    rw [List.foldl_cons, ih hbs, hrest, releaseBlob_space, Table.total_cons]
    simp only [Space.mk.injEq, true_and, and_true]
    omega

/-- The attachment after the loop over `bs`. -/
def releasedIn (rule : ReleaseRule) (now : Time) (l : Ledger) (bs : List Blob) (b : Blob) : Blob :=
  if b.id ∈ bs.map Blob.id then rule.released now (l.attemptsOf b.id) b else b

theorem foldl_releaseBlob_blobs (now : Time) (hbs : Table.Keyed Blob.id bs)
    (hk : Table.Keyed Blob.id l.blobs) (hsub : ∀ b ∈ bs, b ∈ l.blobs) :
    (bs.foldl (rule.releaseBlob now) l).blobs = l.blobs.map (rule.releasedIn now l bs) := by
  induction bs generalizing l with
  | nil =>
    show l.blobs = l.blobs.map _
    conv_lhs => rw [← List.map_id l.blobs]
    exact List.map_congr_left fun b _ => by simp [releasedIn]
  | cons b bs ih =>
    obtain ⟨hb, hbs⟩ := List.nodup_cons.mp hbs
    have hbl := hsub b List.mem_cons_self
    have hne : ∀ c ∈ bs, c.id ≠ b.id := fun c hc e => hb (e ▸ List.mem_map_of_mem hc)
    have hblobs : (rule.releaseBlob now l b).blobs = _ := releaseBlob_blobs hk hbl now
    have hk' : Table.Keyed Blob.id (rule.releaseBlob now l b).blobs := by
      rw [hblobs]
      exact hk.put _
    have hsub' : ∀ c ∈ bs, c ∈ (rule.releaseBlob now l b).blobs := by
      intro c hc
      rw [hblobs]
      exact Table.mem_put_of_ne (hsub c (List.mem_cons_of_mem b hc)) (by simpa using hne c hc)
    rw [List.foldl_cons, ih hbs hk' hsub', hblobs, Table.put, List.map_map]
    refine List.map_congr_left fun c hc => ?_
    simp only [Function.comp, releasedIn, released_id, List.map_cons, List.mem_cons]
    by_cases hcb : c.id = b.id
    · -- The row of this pass: no later pass writes it.
      have he : c = b := hk.eq_of_key_eq hc hbl hcb
      subst he
      simp [hb]
    · by_cases hmem : c.id ∈ bs.map Blob.id
      · simp [hcb, hmem, attemptsOf_releaseBlob hcb]
      · simp [hcb, hmem]

/-- The attempt after the loop over `bs`. -/
def releasedAttemptIn (rule : ReleaseRule) (now : Time) (l : Ledger) (bs : List Blob)
    (a : TransferAttempt) :
    TransferAttempt :=
  match Table.get Blob.id a.blobId bs with
  | some b => if rule.charges (l.attemptsOf b.id) b then rule.releaseAttempt now b a else a
  | none => a

theorem foldl_releaseBlob_attempts (now : Time) (hbs : Table.Keyed Blob.id bs)
    (l : Ledger) : (bs.foldl (rule.releaseBlob now) l).attempts =
      l.attempts.map (rule.releasedAttemptIn now l bs) := by
  induction bs generalizing l with
  | nil =>
    show l.attempts = l.attempts.map _
    conv_lhs => rw [← List.map_id l.attempts]
    exact List.map_congr_left fun b _ => rfl
  | cons b bs ih =>
    obtain ⟨hb, hbs⟩ := List.nodup_cons.mp hbs
    have hne : ∀ c ∈ bs, c.id ≠ b.id := fun c hc e => hb (e ▸ List.mem_map_of_mem hc)
    rw [List.foldl_cons, ih hbs, releaseBlob_attempts, List.map_map]
    refine List.map_congr_left fun a _ => ?_
    show rule.releasedAttemptIn now (rule.releaseBlob now l b) bs
      (if a.blobId = b.id ∧
        rule.charges (l.attemptsOf b.id) b = true then rule.releaseAttempt now b a
        else a) = rule.releasedAttemptIn now l (b :: bs) a
    by_cases hab : a.blobId = b.id
    · -- An attempt of this pass: no later pass writes it.
      have hnone : Table.get Blob.id b.id bs = none :=
        List.find?_eq_none.mpr fun c hc => by simpa using hne c hc
      have hsome : Table.get Blob.id b.id (b :: bs) = some b := by simp [Table.get]
      by_cases hc : rule.charges (l.attemptsOf b.id) b = true
      · rw [if_pos ⟨hab, hc⟩]
        simp [releasedAttemptIn, hab, hnone, hc, hsome]
      · rw [if_neg fun h => hc h.2]
        simp [releasedAttemptIn, hab, hnone, hc, hsome]
    · have hget : Table.get Blob.id a.blobId (b :: bs) = Table.get Blob.id a.blobId bs := by
        simp [Table.get, Ne.symm hab]
      rw [if_neg fun h => hab h.1]
      unfold releasedAttemptIn
      rw [hget]
      cases hf : Table.get Blob.id a.blobId bs with
      | none => rfl
      | some c => simp only [attemptsOf_releaseBlob (hne c (Table.get_mem hf).1)]

/-! ### The whole of it -/

section Closed

variable {l : Ledger} {r : Record} (state : RecordState) (now : Time)

/-- The attachment after its record `r` was stopped. -/
def releasedBlob (rule : ReleaseRule) (l : Ledger) (r : Record) (now : Time) (b : Blob) : Blob :=
  if b.recordId = r.id then rule.released now (l.attemptsOf b.id) b else b

/-- The attempt after the record `r` was stopped. -/
def releasedAttempt (rule : ReleaseRule) (l : Ledger) (r : Record) (now : Time)
    (a : TransferAttempt) : TransferAttempt :=
  match l.blob a.blobId with
  | some b =>
    if b.recordId = r.id ∧ rule.charges (l.attemptsOf b.id) b = true then
      rule.releaseAttempt now b a
    else a
  | none => a

theorem keyed_blobsOf (hk : Table.Keyed Blob.id l.blobs) (recordId : Id) :
    Table.Keyed Blob.id (l.blobsOf recordId) :=
  hk.filter _

@[simp] theorem release_records : (rule.release l r state now).records =
    Table.put Record.id (r.stopped state) l.records := by
  unfold release
  rw [foldl_releaseBlob_records]
  rfl

@[simp] theorem release_minted : (rule.release l r state now).minted = l.minted := by
  unfold release
  rw [foldl_releaseBlob_minted]
  rfl

section
variable (hk : Table.Keyed Blob.id l.blobs)
include hk

theorem release_space : (rule.release l r state now).space = l.space.moved (-r.declaredBytes)
      (Table.total (fun b => rule.charge (l.attemptsOf b.id) b) (l.blobsOf r.id)) := by
  unfold release
  rw [foldl_releaseBlob_space now (keyed_blobsOf hk _)]
  rfl

theorem release_blobs :
    (rule.release l r state now).blobs = l.blobs.map (rule.releasedBlob l r now) := by
  unfold release
  rw [foldl_releaseBlob_blobs now (keyed_blobsOf hk _) (by exact hk)
    (by exact fun b hb => (List.mem_filter.mp hb).1)]
  refine List.map_congr_left fun b hb => ?_
  have hmem : b.id ∈ (l.blobsOf r.id).map Blob.id ↔ b.recordId = r.id := by
    constructor
    · intro h
      obtain ⟨c, hc, he⟩ := List.mem_map.mp h
      obtain ⟨hcl, hcr⟩ := List.mem_filter.mp hc
      rw [← hk.eq_of_key_eq hcl hb he]
      simpa using hcr
    · intro h
      exact List.mem_map_of_mem (List.mem_filter.mpr ⟨hb, by simpa using h⟩)
  unfold releasedIn releasedBlob
  simp only [hmem]
  rfl

theorem release_attempts :
    (rule.release l r state now).attempts = l.attempts.map (rule.releasedAttempt l r now) := by
  unfold release
  rw [foldl_releaseBlob_attempts now (keyed_blobsOf hk _)]
  refine List.map_congr_left fun a _ => ?_
  unfold releasedAttemptIn releasedAttempt Ledger.blob
  cases hf : Table.get Blob.id a.blobId (l.blobsOf r.id) with
  | some b =>
    obtain ⟨hb, he⟩ := Table.get_mem hf
    obtain ⟨hbl, hbr⟩ := List.mem_filter.mp hb
    have hget := hk.get_eq hbl
    rw [he] at hget
    simp only [hget, of_decide_eq_true hbr, true_and]
    rfl
  | none =>
    have hnone := Table.get_none hf
    cases hg : Table.get Blob.id a.blobId l.blobs with
    | none => rfl
    | some b =>
      obtain ⟨hbl, he⟩ := Table.get_mem hg
      have hbr : ¬ b.recordId = r.id := fun h =>
        hnone b (List.mem_filter.mpr ⟨hbl, by simpa using h⟩) he
      simp [hbr]

end

end Closed

end ReleaseRule

end Hf2l.Exchange
