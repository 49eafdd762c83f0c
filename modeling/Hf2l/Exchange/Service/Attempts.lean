import Hf2l.Exchange.Service.Records

/-!
# `Hf2l.Exchange.Service.Attempts`: the rows of a transfer

A transfer prepares its work in one transaction, calls the storage provider outside of any,
and commits the result in another. `transfers.py` and its port `transfers.go` write the same
rows on the way. This module has these rows and the small transactions the two share; the
modules `Python.Transfers` and `Go.Transfers` have the rest of each.

An attempt that a process carries between its transactions is a snapshot of the row
(`session.expunge`). The transactions take the snapshot as their argument `attempt`, and
`current` is the row they find.
-/

set_option autoImplicit false

namespace Hf2l.Exchange.Attempts

open Lib
open Service (record attachment)

/-! ### Storage -/

/-- The failures `storage.py` raises. -/
inductive StorageFailure where
  | missing
  | misconfigured
  | invalidParts
  | invalidPartNumber
  | verificationFailed
  | cleanupIncomplete
  | insecureGrant
  | unavailable
deriving DecidableEq, Repr

namespace StorageFailure

def code : StorageFailure → String
  | .missing => "storage_missing"
  | .misconfigured => "storage_misconfigured"
  | .invalidParts => "invalid_parts"
  | .invalidPartNumber => "invalid_part_number"
  | .verificationFailed => "verification_failed"
  | .cleanupIncomplete => "cleanup_incomplete"
  | .insecureGrant => "insecure_storage_grant"
  | .unavailable => "storage_unavailable"

def retryable : StorageFailure → Bool
  | .misconfigured | .cleanupIncomplete | .unavailable => true
  | _ => false

/-- The provider may still be carrying out the call. -/
def uncertain : StorageFailure → Bool
  | .unavailable => true
  | _ => false

end StorageFailure

/-- A storage failure that reaches the caller of the API. -/
def storageError (f : StorageFailure) : Error := err (if f.retryable then 503 else 409) f.code

/-- `part_size_for`. -/
def partSizeFor (number size partSize : Nat) : Except Error Nat :=
  let count := max 1 ((size + partSize - 1) / partSize)
  if 1 ≤ number ∧ number ≤ count then .ok (min partSize (size - (number - 1) * partSize))
  else .error (storageError .invalidPartNumber)

/-- The `state` and the `result` that `commit` is called with. -/
inductive Outcome where
  | uploading (handle : Option UploadHandle)
  | verifying (version : String)
  | verified (size : Nat) (sha256 : String)
  | failed (code : String)
  | cleaned
deriving DecidableEq, Repr

def Outcome.state : Outcome → TransferState
  | .uploading _ => .uploading
  | .verifying _ => .verifying
  | .verified _ _ => .verified
  | .failed _ => .failed
  | .cleaned => .cleaned

/-! ### Uploads as a caller sees them -/

structure TransferView where
  attachmentId : Id
  state : TransferState
  partSize : Nat
  attemptId : Option Id

/-- `_view`. -/
def view (b : Blob) (attempt : Option TransferAttempt) : TransferView :=
  ⟨b.id, b.state, b.partSize, attempt.map (·.id)⟩

/-- What a command of a transfer does after its first transaction: answer, or execute the
attempt. -/
inductive Next where
  | answer (view : TransferView)
  | execute (attempt : TransferAttempt)

/-- `_upload`: the provider's upload id. -/
def upload (attempt : TransferAttempt) : Except Error String :=
  match attempt.uploadHandle.id with
  | none | some "" => .error (storageError .missing)
  | some id => .ok id

/-- `_attachment`. -/
def recordAndBlob (db : Db) (recordId attachmentId : Id) (member : Member) (p : Principal)
    (write : Bool) : Except Error (Record × Blob) := do
  let r ← record db recordId member p write
  let b ← attachment db recordId attachmentId
  return (r, b)

/-- What `grants` signs outside of its two transactions. -/
structure SigningRequest where
  recordId : Id
  attachmentId : Id
  attemptId : Id
  uploadId : String
  numbers : List Nat
  sizes : List Nat
  expiresAt : Time

/-- `max(1, min(grant_seconds, int(expires_at - now)))`. -/
def grantSeconds (env : Env) (r : Record) (now : Time) : Int :=
  max 1 (min env.grantSeconds (r.expiresAt - now))

/-- Raise the expiry of the latest grant on an attempt and on its attachment. -/
def raiseGrant (l : Ledger) (b : Blob) (attempt : TransferAttempt) (expiry : Time) : Ledger :=
  (l.putAttempt { attempt with grantExpiresAt := max attempt.grantExpiresAt expiry }).putBlob
    { b with grantExpiresAt := max b.grantExpiresAt expiry }

/-- The attachment of a published record can be downloaded. -/
def downloadable (r : Record) (b : Blob) : Except Error Unit :=
  refuse (r.state ≠ .published ∨ b.state ≠ .verified) (err 409 "attachment_not_available")

/-! ### Markers -/

/-- The receipt of one PUT by the gateway. -/
structure GatewayPutHandle where
  recordId : Id
  attachmentId : Id
  attemptId : Id
  objectKey : ObjectKey
  uploadId : String
  partNumber : Nat
  token : Token
deriving DecidableEq, Repr

/-- The handle is that of a PUT whose marker the attempt still has. -/
def holdsMarker (attempt : TransferAttempt) (h : GatewayPutHandle) : Bool :=
  attempt.blobId = h.attachmentId && attempt.objectKey = h.objectKey &&
    attempt.uploadHandle.id = some h.uploadId && attempt.uploadHandle.key = some h.objectKey &&
    decide (h.token ∈ attempt.mutationTokens)

/-- The attempt without one of its markers. -/
def dropToken (attempt : TransferAttempt) (token : Option Token) : TransferAttempt :=
  { attempt with mutationTokens := attempt.mutationTokens.filter fun t => some t ≠ token }

/-- The token of the receipt is one for its part. -/
def handleWellFormed (h : GatewayPutHandle) : Bool :=
  decide (1 ≤ h.partNumber) && decide (h.partNumber ≤ 10000) &&
    match h.token with
    | .gatewayPut part _ => part = h.partNumber
    | .lease _ => false

/-! ### Leases -/

/-- The lease has not run out. -/
def leased (attempt : TransferAttempt) (now : Time) : Bool := attempt.leaseUntil.getD 0 > now

/-- `_owned`: the row is still under the lease of the snapshot. -/
def owned (current attempt : TransferAttempt) (now : Time) : Bool :=
  current.token = attempt.token && current.token.isSome && leased current now

/-- The attempt waits for markers that nobody has settled. -/
def deferred (env : Env) (attempt : TransferAttempt) (now : Time) : TransferAttempt :=
  { attempt with
    lastError := some "storage_mutation_uncertain", nextAttempt := now + env.recoverAfter }

/-- An initiation whose lease ran out is given up. -/
def superseded (attempt : TransferAttempt) (now : Time) : TransferAttempt :=
  { attempt with
      state := .cleanup, operation := .cleanup, nextAttempt := now, updatedAt := now,
      token := none, leaseUntil := none }

/-- The branch of `acquire` for an attempt whose initiation was lost: its result is never
adopted. A draft without uncertain markers gets a new attempt with its own key. -/
def recoverInitiation (env : Env) (b : Blob) (attempt : TransferAttempt) (now : Time) (db : Db) :
    Except Error (Db × Option TransferAttempt) := do
  let previous := superseded attempt now
  let ledger := db.ledger.putAttempt previous
  let r ← found Error.internal (db.ledger.record b.recordId)
  if r.state ≠ .draft then return ({ db with ledger }, none)
  else if attempt.mutationTokens ≠ [] then
    let marked := { previous with lastError := some "storage_mutation_uncertain" }
    let ledger := (db.ledger.putAttempt marked).putBlob { b with state := .reserved }
    return ({ db with ledger }, none)
  else
    let next := { ledger.newAttempt env b now with
      retryCount := previous.retryCount, lastError := previous.lastError,
      createdAt := previous.createdAt, updatedAt := previous.updatedAt }
    return ({ db with ledger := ledger.openAttempt b next }, some next)

/-- The attempt under a new lease. A completion enters its token in the ledger of markers. -/
def withLease (env : Env) (l : Ledger) (attempt : TransferAttempt) (now : Time) : TransferAttempt :=
  let token : Token := .lease (l.fresh 0)
  { attempt with
      token := some token
      leaseUntil := some (now + env.leaseSeconds)
      mutationTokens := if attempt.state = .completing then attempt.mutationTokens ++ [token]
        else attempt.mutationTokens }

/-- The row with the identifier and the token of the snapshot. -/
def sameLease (current attempt : TransferAttempt) : Bool :=
  current.id = attempt.id && current.token.isSome && current.token = attempt.token

/-- `UPDATE transfer_attempts SET f WHERE c`. -/
def updateAttempts (db : Db) (c : TransferAttempt → Bool) (f : TransferAttempt → TransferAttempt) :
    Db :=
  let attempts := db.ledger.attempts.map fun a => if c a then f a else a
  { db with ledger := { db.ledger with attempts } }

def releaseLease (attempt : TransferAttempt) (db : Db) : Db :=
  updateAttempts db (sameLease · attempt) fun a => { a with token := none, leaseUntil := none }

/-- One renewal of the heartbeat. -/
def heartbeat (env : Env) (attempt : TransferAttempt) (clock : Clock) (db : Db) : Db :=
  updateAttempts db (fun a => sameLease a attempt && a.leaseUntil.any (· > clock 0)) fun a =>
    { a with leaseUntil := some (clock 0 + env.leaseSeconds) }

/-! ### Ends of an execution -/

/-- `min(300, 2 ** min(retry_count, 8))`. -/
def backoff (retryCount : Nat) : Int := min 300 (2 ^ min retryCount 8)

/-- The row goes back to the queue. -/
def requeued (current : TransferAttempt) (code : String) (now : Time) : TransferAttempt :=
  { current with
      lastError := some code, retryCount := current.retryCount + 1,
      nextAttempt := now + backoff (current.retryCount + 1), token := none, leaseUntil := none }

/-- `_retry`. -/
def retry (attempt : TransferAttempt) (code : String) (clock : Clock) (db : Db) : Db :=
  match db.ledger.blob attempt.blobId, db.ledger.attempt attempt.id with
  | some _, some current =>
    if owned current attempt (clock 0) = false ∨ current.state ≠ attempt.state then db
    else { db with ledger := db.ledger.putAttempt (requeued current code (clock 0)) }
  | _, _ => db

/-- The row after the transition to the state of the outcome. The marker of a call that
returned is taken out of the ledger. -/
def transitioned (current attempt : TransferAttempt) (o : Outcome) (now : Time) : TransferAttempt :=
  let current := if (attempt.state = .initiating ∨ attempt.state = .completing) ∧
      (o.state = .uploading ∨ o.state = .verifying) then
        dropToken current attempt.token else current
  { current with
      state := o.state, updatedAt := now, token := none, leaseUntil := none, retryCount := 0,
      lastError := none, nextAttempt := now }

/-- The row with what the outcome brought: the upload of the provider, the version of the
object, or the failure. -/
def finished (current attempt : TransferAttempt) (o : Outcome) (now : Time) : TransferAttempt :=
  let next := transitioned current attempt o now
  match o with
  | .uploading (some h) => { next with uploadHandle := { id := h.id, key := h.key } }
  | .uploading none => next
  | .verifying version =>
    { next with uploadHandle := { next.uploadHandle with version := some version } }
  | .verified _ _ => next
  | .failed code => { next with lastError := some code }
  | .cleaned => { next with uploadHandle := {} }

/-- The texts of the attachment events. -/
def attachmentEvent : Outcome → String
  | .uploading _ => "attachment.uploading"
  | .verifying _ => "attachment.verifying"
  | .verified _ _ => "attachment.verified"
  | .failed _ => "attachment.failed"
  | .cleaned => "attachment.cleaned"

/-- The event every successful commit ends with. -/
def emitOutcome (db : Db) (b : Blob) (o : Outcome) (now : Time) : Db :=
  db.emit (attachmentEvent o) "worker" (some b.recordId) [("attachment_id", .str b.id)] now

/-! ### Maintenance -/

/-- The row of a repaired attempt. A completion of a draft is recovered, all else is cleaned. -/
def repaired (attempt : TransferAttempt) (b : Blob) (recover : Bool) (now : Time) :
    TransferAttempt :=
  { attempt with
      mutationTokens := []
      operation := if recover then .upload else .cleanup
      state := if recover then .completing else .cleanup
      token := none
      leaseUntil := none
      nextAttempt := if recover then now else max (max now attempt.grantExpiresAt) b.grantExpiresAt
      lastError := none
      updatedAt := now }

/-- The attachment of a repaired attempt: a draft may upload it again, that of a stopped
record is charged until it is cleaned. -/
def repairBlob (l : Ledger) (r : Record) (b : Blob) (recover : Bool) : Ledger :=
  if r.state = .draft ∧ recover = false then l.putBlob { b with state := .reserved }
  else if r.state.terminal = true ∧ b.pendingDeletion = false then
    (l.putBlob b.recharged).addReclaiming b.size
  else l

/-- Only the history of cleaned attempts without markers is discarded, after its retention. -/
def prunable (env : Env) (now : Time) (attempt : TransferAttempt) : Bool :=
  attempt.state = .cleaned && attempt.updatedAt < now - env.operationRetentionSeconds &&
    attempt.mutationTokens = []

/-- The first transaction of `prune`. `operations` and `attempts` choose, among the rows that
have outlived their retention, the batch that the limit leaves. -/
def prune (env : Env) (operations : Operation → Bool) (attempts : TransferAttempt → Bool)
    (clock : Clock) (db : Db) : Db :=
  let now := clock 0
  { db with
      operations := db.operations.filter fun o =>
        !(decide (o.createdAt < now - env.operationRetentionSeconds) && operations o)
      ledger := { db.ledger with
        attempts := db.ledger.attempts.filter fun a => !(prunable env now a && attempts a) } }

/-- The second transaction of `prune`, for the events of the space that the first has chosen. An
event that is gone by now raises the floor as well. -/
def pruneEvents (ids : List Nat) (db : Db) : Db :=
  { db with
      events := db.events.filter fun e => e.id ∉ ids
      ledger := { db.ledger with space := { db.ledger.space with
        eventFloor := ids.foldl max db.ledger.space.eventFloor } } }

end Hf2l.Exchange.Attempts
