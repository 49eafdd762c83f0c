import Hf2l.Exchange.Ledger.Release
import Hf2l.Exchange.Service.Attempts
import Mathlib.Logic.Relation

/-!
# `Hf2l.Exchange.Ledger.Change`: the abstract ledger

The transactions of both services reduce to the few changes that this module lists. `Change`
is the relation between the ledger before and after one of them, with what the transactions
have checked at that point; a transaction is a sequence of changes, or it stops records
(`Effect`). Every invariant of the ledger is proved once for each change, and each service is
shown once to make no others (`Service.Effects`, `Python.Effects`, `Go.Effects`).

Of an attempt only its `Work` matters here: who may act on its key and what has been marked.
The columns that schedule the work are free.

`Allowance` says what the transactions under consideration may do beyond that. The accounts
hold whatever they do; other results need, for instance, that a commit takes an attempt only
to the states that follow its own.
-/

set_option autoImplicit false

namespace Hf2l.Exchange

open Lib
open Service (verifiedAsDeclared baseExists)

/-- The columns of an attempt that say who may act on its key. -/
structure Work where
  id : Id
  blobId : Id
  operation : AttemptOperation
  objectKey : ObjectKey
  state : TransferState
  token : Option Token
  mutationTokens : List Token
  grantExpiresAt : Time

def TransferAttempt.work (a : TransferAttempt) : Work :=
  ⟨a.id, a.blobId, a.operation, a.objectKey, a.state, a.token, a.mutationTokens, a.grantExpiresAt⟩

namespace Work

/-- The upload of the attempt is given up. -/
def superseded (x : Work) : Work :=
  { x with state := .cleanup, operation := .cleanup, token := none }

/-- The attempt is put behind the cleanup barrier again. -/
def rearmed (x : Work) : Work := { x with state := .cleanup, operation := .cleanup, token := none }

/-- The execution of the attempt ended in the state `s`. -/
def ended (x : Work) (s : TransferState) : Work := { x with state := s, token := none }

def unleased (x : Work) : Work := { x with token := none }

/-- A marker is taken out of the ledger. -/
def dropped (x : Work) (t : Token) : Work :=
  { x with mutationTokens := x.mutationTokens.filter (· ≠ t) }

end Work

/-- The attempt is behind the cleanup barrier. -/
def TransferState.barred (s : TransferState) : Prop := s = .cleanup ∨ s = .cleaned

structure Allowance where
  rule : ReleaseRule
  /-- The snapshot of an execution names the attachment that its attempt belongs to. -/
  matched : Prop
  /-- The base may be given to the draft. -/
  amend : Ledger → Record → Option Id → Prop
  /-- A commit may take the attempt from the first state to the second. -/
  advance : Id → TransferState → TransferState → Prop
  /-- The marker may be taken out of the ledger of the attempt. -/
  drop : Id → Token → Prop
  /-- The attempt may be repaired. -/
  repair : Id → Prop
  /-- The attachment of a stopped record, no longer charged, may be charged again. -/
  recharge : Ledger → Blob → Prop
  /-- The row of the attempt may be deleted, whatever it says. -/
  forget : Id → Prop
  /-- Records may be stopped. -/
  stop : Prop

/-- Everything is allowed that the arguments do not restrict. -/
def Allowance.free (rule : ReleaseRule) (matched : Prop) (recharge : Ledger → Blob → Prop)
    (forget : Prop) :
    Allowance where
  rule := rule
  matched := matched
  amend _ _ _ := True
  advance _ _ _ := True
  drop _ _ := True
  repair _ := True
  recharge := recharge
  forget _ := forget
  stop := True

namespace Ledger

/-- The record that the attachment belongs to is a draft. -/
def InDraft (l : Ledger) (b : Blob) : Prop := ∃ r ∈ l.records, r.id = b.recordId ∧ r.state = .draft

end Ledger

/-! ### Moves of one row -/

section Moves

variable (w : Allowance) (l : Ledger)

/-- What can happen to one attempt; the number is that of the identifiers drawn for it. -/
inductive Move (x : Work) : Nat → Work → Prop
  | keep : Move x 0 x
  | unlease : Move x 0 x.unleased
  | expose (t : Time) : Move x 0 { x with grantExpiresAt := max x.grantExpiresAt t }
  | mark (part : Nat) (hs : x.state = .uploading) :
    Move x 1 { x with mutationTokens := x.mutationTokens ++ [.gatewayPut part (l.fresh 0)] }
  | submit (hs : x.state = .uploading) :
    Move x 1 { x with
      state := .completing, token := some (.lease (l.fresh 0))
      mutationTokens := x.mutationTokens ++ [.lease (l.fresh 0)] }
  | lease (hs : x.state = .completing ∨ x.state = .verifying ∨ x.state = .cleanup) :
    Move x 1 { x with
      token := some (.lease (l.fresh 0))
      mutationTokens := if x.state = .completing then x.mutationTokens ++ [.lease (l.fresh 0)]
        else x.mutationTokens }
  | supersede (hs : x.state = .initiating) :
    Move x 0 x.superseded
  | advance (t : Token) (s : TransferState) (y : Work) (ht : x.token = some t)
    (hs : s = .uploading ∨ s = .verifying ∨ s = .verified ∨ s = .failed)
    (hw : w.advance x.id x.state s) (hy : y = x ∨ y = x.dropped t ∧ w.drop x.id t) :
    Move x 0 (y.ended s)
  | settle (t : Token) (ht : t ∈ x.mutationTokens) (hs : ¬ x.state.barred) (hw : w.drop x.id t) :
    Move x 0 (x.dropped t)

/-- What can happen to an attachment without a change of the charges. -/
inductive BlobMove (b : Blob) : Blob → Prop
  | expose (t : Time) : BlobMove b { b with grantExpiresAt := t }
  | relabel (s : TransferState) (hd : l.InDraft b) (hs : s ≠ .cleaned) : BlobMove b
    { b with state := s }
  | verify (a : TransferAttempt) (version : Option String) (size : Nat) (sha256 : String)
    (hd : l.InDraft b) (ha : a ∈ l.attempts) (hab : w.matched → a.blobId = b.id)
    (hs : a.state = .verified) :
    BlobMove b { b with
      objectKey := some a.objectKey, objectVersion := version, verifiedSize := some size
      verifiedSha256 := some sha256, state := .verified }

/-- What can happen to a record that is not stopped by it. -/
inductive RecordMove (r : Record) : Record → Prop
  | amend (metadata : Fields) (size : Nat) (base : Option Id) (generation : Nat)
    (hd : r.state = .draft) (hb : baseExists l base = true) (hw : w.amend l r base)
    (hq : l.space.metadataBytes - r.metadataBytes + size ≤ l.space.quotaMetadataBytes) :
    RecordMove r { r with metadata, metadataBytes := size, baseRecordId := base, generation }
  | publish (publishedAt : Option Time) (shared : Bool) (generation : Nat) (hd : r.state = .draft)
    (hv : ∀ b ∈ l.blobsOf r.id, verifiedAsDeclared b = true) :
    RecordMove r { r with state := .published, publishedAt, shared, generation }
  | extend (t : Time) (hd : r.state = .draft) : RecordMove r { r with expiresAt := t }

end Moves

/-! ### Changes -/

/-- A space row with other limits, which its use fits in. -/
structure Respaced (s s' : Space) : Prop where
  id : s'.id = s.id
  profile : s'.profile = s.profile
  allocated : s'.allocated = s.allocated
  reclaiming : s'.reclaiming = s.reclaiming
  recordCount : s'.recordCount = s.recordCount
  metadataBytes : s'.metadataBytes = s.metadataBytes
  quotaBytes : s'.quotaBytes = s.quotaBytes ∨ s.allocated + s.reclaiming ≤ s'.quotaBytes
  quotaRecords : s'.quotaRecords = s.quotaRecords ∨ s.recordCount ≤ s'.quotaRecords
  quotaMetadataBytes :
    s'.quotaMetadataBytes = s.quotaMetadataBytes ∨ s.metadataBytes ≤ s'.quotaMetadataBytes
  bounded : s'.quotaBytes = s.quotaBytes ∨ s'.quotaBytes ≤ maxInt64

/-- A draft and its attachments, with new identifiers, that fit in the limits. -/
structure Opened (l : Ledger) (r : Record) (bs : List Blob) : Prop where
  id : r.id = l.fresh 0
  draft : r.state = .draft
  base : baseExists l r.baseRecordId = true
  ids : bs.map Blob.id = (List.range bs.length).map fun i => l.fresh (i + 1)
  owner : ∀ b ∈ bs, b.recordId = r.id
  reserved : ∀ b ∈ bs, b.state = .reserved ∧ b.pendingDeletion = false ∧ b.objectKey = none
  declared : (r.declaredBytes : Int) = Table.total (fun b => (b.size : Int)) bs
  roomRecords : l.space.recordCount + 1 ≤ l.space.quotaRecords
  roomMetadata : l.space.metadataBytes + r.metadataBytes ≤ l.space.quotaMetadataBytes
  roomBytes : l.space.allocated + l.space.reclaiming + r.declaredBytes ≤ l.space.quotaBytes

/-- The attempt that opens an upload of `b`, under the identifier after `l`'s. -/
structure Initiated (l : Ledger) (b : Blob) (x : Work) : Prop where
  id : x.id = l.fresh 0
  blobId : x.blobId = b.id
  operation : x.operation = .upload
  key : x.objectKey.blobId = b.id ∧ x.objectKey.attemptId = l.fresh 0
  state : x.state = .initiating
  token : x.token = some (.lease (l.fresh 1))
  mutationTokens : x.mutationTokens = [.lease (l.fresh 1)]

variable (w : Allowance)

/-- One change of the ledger. -/
inductive Change (l : Ledger) : Ledger → Prop
  | mint (n : Nat) : Change l (l.draw n)
  | respace (s : Space) (hs : Respaced l.space s) : Change l { l with space := s }
  | insert (r : Record) (bs : List Blob) (h : Opened l r bs) :
    Change l ((l.insertRecord r bs).draw (1 + bs.length))
  | share (kind : String) (flag : Bool) : Change l (l.share kind flag)
  | record (r r' : Record) (hr : r ∈ l.records) (hm : RecordMove w l r r') :
    Change l ((l.putRecord r').addMetadataBytes (r'.metadataBytes - r.metadataBytes))
  | remove (r : Record) (hr : r ∈ l.records) (ht : r.state.terminal = true)
    (hblobs : ∀ b ∈ l.blobsOf r.id, b.state = .cleaned ∧
      ∀ a ∈ l.attemptsOf b.id, a.mutationTokens = [])
    (hbase : ∀ x ∈ l.records, x.baseRecordId ≠ some r.id) : Change l (l.removeRecord r)
  | blob (b b' : Blob) (hb : b ∈ l.blobs) (hm : BlobMove w l b b') : Change l (l.putBlob b')
  | start (b : Blob) (a : TransferAttempt) (hb : b ∈ l.blobs) (hd : l.InDraft b)
    (ha : Initiated l b a.work)
    (hidle : ∀ x ∈ l.attemptsOf b.id, x.operation = .upload → x.state.active = false) :
    Change l (l.openAttempt b a)
  | restart (b : Blob) (a a' new : TransferAttempt) (hb : b ∈ l.blobs) (hd : l.InDraft b)
    (ha : a ∈ l.attempts) (hab : a.blobId = b.id) (hs : a.state = .initiating)
    (htokens : a.mutationTokens = [])
    (ha' : a'.work = a.work.superseded)
    (hnew : Initiated l b new.work) : Change l ((l.putAttempt a').openAttempt b new)
  | attempt (a a' : TransferAttempt) (n : Nat) (ha : a ∈ l.attempts)
    (hm : Move w l a.work n a'.work) :
    Change l ((l.putAttempt a').draw n)
  | touch (f : TransferAttempt → TransferAttempt)
    (hf : ∀ a, (f a).work = a.work ∨ (f a).work = a.work.unleased) :
    Change l { l with attempts := l.attempts.map f }
  | clean (b : Blob) (a a' : TransferAttempt) (hb : b ∈ l.blobs) (ha : a ∈ l.attempts)
    (hab : w.matched → a.blobId = b.id) (ht : a.token.isSome = true) (h0 : a.mutationTokens = [])
    (hw : w.advance a.id a.state .cleaned)
    (ha' : a'.work = a.work.ended .cleaned) :
    Change l (w.rule.cleanAttempt l b a')
  | rearm (r : Record) (b : Blob) (a a' : TransferAttempt) (now : Time) (hr : r ∈ l.records)
    (hrb : r.id = b.recordId) (hb : b ∈ l.blobs) (ha : a ∈ l.attempts)
    (hab : w.matched → a.blobId = b.id) (hs : a.state.barred)
    (ha' : a'.work = a.work ∨ ∃ t ∈ a.mutationTokens, w.drop a.id t ∧ a'.work = a.work.dropped t)
    (hw : r.state.terminal = true → b.pendingDeletion = false → a.mutationTokens ≠ [] ∨
      w.recharge l b) :
    Change l (l.rearm r b a' now)
  | repair (r : Record) (b : Blob) (a : TransferAttempt) (recover : Bool) (now : Time)
    (hr : r ∈ l.records) (hrb : r.id = b.recordId) (hb : b ∈ l.blobs) (ha : a ∈ l.attempts)
    (hab : a.blobId = b.id) (hw : w.repair a.id)
    (hrecover : recover = true ↔ r.state = .draft ∧ a.state = .completing)
    (hs : r.state.terminal = true ∨ a.state = .cleanup ∨ a.state = .initiating ∨
      a.state = .completing ∨ a.state = .uploading ∧ r.state = .draft)
    (hc : r.state.terminal = true → b.pendingDeletion = false → w.recharge l b) :
    Change l (Attempts.repairBlob (l.putAttempt (Attempts.repaired a b recover now)) r b recover)
  | forget (keep : TransferAttempt → Bool)
    (h : ∀ a ∈ l.attempts, keep a = false → w.forget a.id ∨ a.state = .cleaned ∧
      a.mutationTokens = []) :
    Change l { l with attempts := l.attempts.filter keep }

/-- A sequence of changes. -/
def Changes : Ledger → Ledger → Prop := Relation.ReflTransGen (Change w)

/-- Stop those of the records that are not stopped yet. -/
def ReleaseRule.stop (rule : ReleaseRule) (state : Record → RecordState) (now : Time) (l : Ledger)
    (rs : List Record) : Ledger :=
  rs.foldl (fun l r => if r.state.terminal then l else rule.release l r (state r) now) l

/-- What one transaction does to the ledger: it makes changes, it fails an attempt and stops
its draft, or it stops records. -/
inductive Effect (l : Ledger) : Ledger → Prop
  | quiet {l' : Ledger} (h : Changes w l l') : Effect l l'
  | fail (r : Record) (b : Blob) (a a' : TransferAttempt) (t : Token) (now : Time)
    (hr : r ∈ l.records)
    (hrb : r.id = b.recordId) (hd : r.state = .draft) (hb : b ∈ l.blobs) (ha : a ∈ l.attempts)
    (hab : w.matched → a.blobId = b.id) (ht : a.token = some t)
    (hw : w.advance a.id a.state .failed)
    (ha' : a'.work = a.work.ended .failed) (hstop : w.stop) :
    Effect l (w.rule.release (l.putAttempt a') r .failed now)
  | stop (rs : List Record) (state : Record → RecordState) (now : Time)
    (hrs : ∀ r ∈ rs, r ∈ l.records) (hk : Table.Keyed Record.id rs)
    (ht : ∀ r, (state r).terminal = true) (hstop : w.stop) : Effect l (w.rule.stop state now l rs)

namespace Changes

variable {w}

theorem refl (l : Ledger) : Changes w l l := Relation.ReflTransGen.refl

variable {l l' : Ledger}

theorem one (h : Change w l l') : Changes w l l' := Relation.ReflTransGen.single h

theorem tail {m : Ledger} (h : Changes w l m) (h' : Change w m l') : Changes w l l' :=
  Relation.ReflTransGen.tail h h'

theorem trans {m : Ledger} (h : Changes w l m) (h' : Changes w m l') : Changes w l l' :=
  Relation.ReflTransGen.trans h h'

/-- A property that every change keeps is kept by a sequence of them. -/
theorem preserves {P : Ledger → Prop} (hstep : ∀ l l', P l → Change w l l' → P l')
    (h : Changes w l l') (hl : P l) : P l' := by
  induction h with
  | refl => exact hl
  | tail _ hc ih => exact hstep _ _ ih hc

end Changes

namespace Effect

variable {w}

/-- The failed attempt of `fail` is one change. -/
theorem fail_change {l : Ledger} {a a' : TransferAttempt} {t : Token} (ha : a ∈ l.attempts)
    (ht : a.token = some t) (hw : w.advance a.id a.state .failed)
    (ha' : a'.work = a.work.ended .failed) :
    Change w l (l.putAttempt a') := by
  refine Change.attempt a a' 0 ha ?_
  rw [ha']
  exact Move.advance t .failed a.work ht (by simp) hw (Or.inl rfl)

/-- **An invariant of every change and of stopping a record is an invariant of every
transaction.** -/
theorem preserves {P : Ledger → Prop} (hstep : ∀ l l', P l → Change w l l' → P l')
    (hrelease : ∀ (l : Ledger) (r : Record) (state : RecordState) (now : Time), P l →
      r ∈ l.records → r.state.terminal = false → state.terminal = true →
      P (w.rule.release l r state now))
    {l l' : Ledger} (h : Effect w l l') (hl : P l) : P l' := by
  cases h with
  | quiet h => exact h.preserves hstep hl
  | fail r b a a' t now hr _ hd _ ha _ ht hw ha' _ =>
    have hm : P (l.putAttempt a') := hstep l _ hl (fail_change ha ht hw ha')
    exact hrelease _ r .failed now hm hr (by rw [hd]; rfl) rfl
  | stop rs state now hrs hk ht _ =>
    -- The rows of the records still to be stopped are not written before their turn.
    unfold ReleaseRule.stop
    induction rs generalizing l with
    | nil => exact hl
    | cons r rs ih =>
      obtain ⟨hr, hk⟩ := List.nodup_cons.mp hk
      rw [List.foldl_cons]
      by_cases hterm : r.state.terminal = true
      · rw [if_pos hterm]
        exact ih hl (fun x hx => hrs x (List.mem_cons_of_mem r hx)) hk
      · rw [if_neg hterm]
        refine ih (hrelease l r _ now hl (hrs r List.mem_cons_self) (by simpa using hterm) (ht r))
          ?_ hk
        intro x hx
        rw [ReleaseRule.release_records]
        refine Table.mem_put_of_ne (hrs x (List.mem_cons_of_mem r hx)) ?_
        exact fun e => hr (e ▸ List.mem_map_of_mem hx)

end Effect

end Hf2l.Exchange
