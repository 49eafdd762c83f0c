import Hf2l.Exchange.Go.Commands
import Hf2l.Exchange.Service.Attempts

/-!
# `Hf2l.Exchange.Go.Transfers`: the transactions of `transfers.go`

The port of `transfers.py`. It differs from the Python service in three ways. Every
transaction that reads the ledger of markers checks that it is well formed (`tokens`), and a
worker that finds one malformed defers the attempt and leaves it alone. A row that is gone is
not an error. And `abandon` re-arms the cleanup of an attempt only while the attempt still
has the marker of the snapshot.

The transactions take the snapshot of the attempt as an argument, as those of the Python
service do. Here nothing restricts it: a system that runs any transaction with any snapshot
has the runs of every schedule of executions.
-/

set_option autoImplicit false

namespace Hf2l.Exchange.Go.Transfers

open Lib
open Service (transaction)
open Attempts

/-! ### The ledger of markers -/

/-- `domain.MutationTokens`: the ledger is a list of distinct texts. -/
def ledgerValid (attempt : TransferAttempt) : Bool := attempt.mutationTokens.Nodup

def uncertain : Error := err 409 "storage_mutation_uncertain"

/-- `tokens`. -/
def tokens (attempt : TransferAttempt) : Except Error (List Token) := do
  refuse (ledgerValid attempt = false) uncertain
  return attempt.mutationTokens

/-- `hasToken`. -/
def hasToken (attempt : TransferAttempt) (token : Option Token) : Bool :=
  ledgerValid attempt && attempt.mutationTokens.any (some · = token)

/-- `active`: the attempt still wanted, with a well-formed ledger. -/
def active (l : Ledger) (blobId : Id) : Except Error (Option TransferAttempt) :=
  match l.active blobId with
  | none => .ok none
  | some attempt => do
    let _ ← tokens attempt
    return some attempt

/-! ### Uploads -/

section
variable (env : Env) (p : Principal)

/-- The first transaction of `Initiate`. Open markers are refused before the state of the
attachment is looked at. -/
def initiate (recordId attachmentId : Id) (clock : Clock) (db : Db) : Except Error (Db × Next) := do
  let member ← transaction env db p .write (clock 0)
  let rb ← recordAndBlob db recordId attachmentId member p true
  let b := rb.2
  refuse (rb.1.state ≠ .draft) (err 409 "record_not_draft")
  let current ← active db.ledger b.id
  match current with
  | some attempt => return (db, .answer (view b (some attempt)))
  | none =>
    let prior := db.ledger.attemptsOf b.id
    refuse (prior.any (fun a => !ledgerValid a || a.mutationTokens ≠ []) = true) uncertain
    if b.state = .verified ∨ b.state = .failed ∨ b.state = .cleaned then
      return (db, .answer (view b none))
    else
      refuse (prior.any (·.state = .cleanup) = true) (err 409 "cleanup_pending")
      refuse (rb.1.expiresAt ≤ clock 1) (err 409 "draft_expired")
      let attempt := db.ledger.newAttempt env b (clock 1)
      return ({ db with ledger := db.ledger.openAttempt b attempt }, .execute attempt)

/-- The first transaction of `Grants`, which reads. -/
def grants.prepare (recordId attachmentId : Id) (numbers : List Nat)
    (clock : Clock) (db : Db) : Except Error SigningRequest := do
  refuse (numbers = [] ∨ numbers.length > 100 ∨ ¬ numbers.Nodup) (err 422 "invalid_part_numbers")
  let member ← transaction env db p .read (clock 0)
  let rb ← recordAndBlob db recordId attachmentId member p true
  let current ← active db.ledger rb.2.id
  let attempt ← found (err 409 "upload_not_ready") current
  refuse (rb.1.state ≠ .draft ∨ rb.1.expiresAt ≤ clock 1 ∨ attempt.state ≠ .uploading)
    (err 409 "upload_not_ready")
  let uploadId ← upload attempt
  let sizes ← numbers.mapM fun n => partSizeFor n rb.2.size rb.2.partSize
  return ⟨recordId, attachmentId, attempt.id, uploadId, numbers, sizes,
    clock 1 + grantSeconds env rb.1 (clock 1)⟩

/-- The second transaction of `Grants`. -/
def grants.expose (request : SigningRequest) (expiries : List Time) (clock : Clock) (db : Db) :
    Except Error Db := do
  let member ← transaction env db p .write (clock 0)
  let rb ← recordAndBlob db request.recordId request.attachmentId member p true
  let attempt ← found (err 409 "upload_not_ready") (db.ledger.attempt request.attemptId)
  refuse (rb.1.state ≠ .draft ∨ rb.1.expiresAt ≤ clock 1 ∨ attempt.state ≠ .uploading)
    (err 409 "upload_not_ready")
  let _ ← tokens attempt
  return { db with ledger := raiseGrant db.ledger rb.2 attempt (expiries.foldl max 0) }

/-! ### Gateway PUTs -/

/-- The first transaction of `BeginGatewayPut`. -/
def beginGatewayPut.admission (recordId attachmentId : Id) (part : Nat)
    (clock : Clock) (db : Db) : Except Error (Db × GatewayPutHandle) := do
  refuse (p.workload.isNone = true) (err 403 "workload_identity_required")
  refuse (part < 1 ∨ 10000 < part) (err 422 "invalid_part_numbers")
  let member ← transaction env db p .write (clock 0)
  let rb ← recordAndBlob db recordId attachmentId member p true
  let b := rb.2
  let current ← active db.ledger b.id
  let attempt ← found (err 409 "upload_not_ready") current
  refuse (rb.1.state ≠ .draft ∨ rb.1.expiresAt ≤ clock 1 ∨ b.pendingDeletion = true ∨
    attempt.state ≠ .uploading) (err 409 "upload_not_ready")
  let uploadId ← (upload attempt).mapError fun _ => err 409 "upload_not_ready"
  let key := attempt.objectKey
  refuse (attempt.uploadHandle.key ≠ some key ∨ key.spaceId ≠ db.ledger.space.id ∨
    key.blobId ≠ b.id ∨ key.attemptId ≠ attempt.id) (err 409 "upload_not_ready")
  let _ ← (partSizeFor part b.size b.partSize).mapError fun _ => err 422 "invalid_part_numbers"
  let markers ← tokens attempt
  refuse (markers.length ≥ 100) uncertain
  let token : Token := .gatewayPut part (db.ledger.fresh 0)
  let attempt' := { attempt with mutationTokens := markers ++ [token], updatedAt := clock 1 }
  return ({ db with ledger := (db.ledger.putAttempt attempt').draw 1 },
    ⟨recordId, attachmentId, attempt.id, key, uploadId, part, token⟩)

/-- The second transaction of `BeginGatewayPut`. -/
def beginGatewayPut.expose (h : GatewayPutHandle) (expiry : Time) (clock : Clock) (db : Db) :
    Except Error Db := do
  let member ← transaction env db p .write (clock 0)
  let rb ← recordAndBlob db h.recordId h.attachmentId member p true
  let current ← found (err 409 "upload_not_ready") (db.ledger.attempt h.attemptId)
  refuse (rb.1.state ≠ .draft ∨ rb.1.expiresAt ≤ clock 1 ∨ current.state ≠ .uploading ∨
    ledgerValid current = false ∨ holdsMarker current h = false) (err 409 "upload_not_ready")
  return { db with ledger := raiseGrant db.ledger rb.2 current expiry }

end

/-- `rearmCleanup`. -/
def rearmCleanup (l : Ledger) (b : Blob) (current : TransferAttempt) (now : Time) :
    Except Error Ledger := do
  let _ ← tokens current
  if current.state = .cleanup ∨ current.state = .cleaned then
    match l.record b.recordId with
    | some r => return l.rearm r b current now
    | none => return l
  else return l

/-- `FinishGatewayPut`. The handle's own fields are checked before its marker. -/
def finishGatewayPut (h : GatewayPutHandle) (clock : Clock) (db : Db) : Except Error (Db × Bool) :=
  if handleWellFormed h = false then .ok (db, false)
  else
    match db.ledger.blob h.attachmentId, db.ledger.attempt h.attemptId with
    | some b, some current =>
      if b.recordId ≠ h.recordId ∨ current.blobId ≠ h.attachmentId ∨
        current.objectKey ≠ h.objectKey ∨ current.uploadHandle.id ≠ some h.uploadId ∨
        current.uploadHandle.key ≠ some h.objectKey then
        .ok (db, false)
      else do
        let _ ← tokens current
        if hasToken current (some h.token) = false then return (db, false)
        else
          let current' := { dropToken current (some h.token) with updatedAt := clock 0 }
          let ledger ← rearmCleanup (db.ledger.putAttempt current') b current' (clock 1)
          return ({ db with ledger }, true)
    | _, _ => .ok (db, false)

/-! ### Completion and download -/

/-- The first transaction of `Complete`. -/
def complete (env : Env) (p : Principal) (recordId attachmentId : Id) (clock : Clock) (db : Db) :
    Except Error (Db × Next) := do
  let member ← transaction env db p .write (clock 0)
  let rb ← recordAndBlob db recordId attachmentId member p true
  let b := rb.2
  refuse (rb.1.state ≠ .draft) (err 409 "record_not_draft")
  let current ← active db.ledger b.id
  match current with
  | none => return (db, .answer (view b none))
  | some attempt =>
    if attempt.state ≠ .uploading then return (db, .answer (view b (some attempt)))
    else
      refuse (rb.1.expiresAt ≤ clock 1) (err 409 "draft_expired")
      let markers ← tokens attempt
      refuse (markers ≠ []) uncertain
      let token : Token := .lease (db.ledger.fresh 0)
      let attempt' : TransferAttempt := { attempt with
        state := .completing, token := some token, leaseUntil := some (clock 1 + env.leaseSeconds),
        mutationTokens := markers ++ [token], updatedAt := clock 1, nextAttempt := clock 1 }
      let ledger := (db.ledger.putAttempt attempt').putBlob { b with state := .completing }
      return ({ db with ledger := ledger.draw 1 }, .execute attempt')

/-- The second transaction of `Download`. -/
def download.expose (env : Env) (p : Principal) (recordId attachmentId : Id) (expiry : Time)
    (clock : Clock) (db : Db) : Except Error Db := do
  let member ← transaction env db p .write (clock 0)
  let rb ← recordAndBlob db recordId attachmentId member p false
  let b := rb.2
  downloadable rb.1 b
  let current ← active db.ledger b.id
  match current with
  | some attempt => return { db with ledger := raiseGrant db.ledger b attempt expiry }
  | none =>
    let ledger := db.ledger.putBlob { b with grantExpiresAt := max b.grantExpiresAt expiry }
    return { db with ledger }

/-! ### Executions -/

/-- What `Acquire` returns. A malformed ledger is reported after its transaction commits. -/
inductive Acquired where
  | nothing
  | lease (attempt : TransferAttempt)
  | quarantined

/-- `locked`: the rows of a transfer. Its callers test for the record if they need it. -/
def locked (l : Ledger) (attemptId : Id) : Option (Blob × TransferAttempt × Option Record) := do
  let attempt ← l.attempt attemptId
  let b ← l.blob attempt.blobId
  return (b, attempt, l.record b.recordId)

def acquire (env : Env) (attemptId : Id) (cleanup : Option Bool) (clock : Clock) (db : Db) :
    Except Error (Db × Acquired) :=
  let now := clock 0
  match locked db.ledger attemptId with
  | none | some (_, _, none) => .ok (db, .nothing)
  | some (b, attempt, some _) =>
    if cleanup.any (· ≠ decide (attempt.state = .cleanup)) then .ok (db, .nothing)
    else if attempt.nextAttempt > now ∨ leased attempt now = true then .ok (db, .nothing)
    else if ledgerValid attempt = false then
      .ok ({ db with ledger := db.ledger.putAttempt (deferred env attempt now) }, .quarantined)
    else if attempt.state = .cleanup ∧ attempt.mutationTokens ≠ [] then
      .ok ({ db with ledger := db.ledger.putAttempt (deferred env attempt now) }, .nothing)
    else if attempt.state = .cleanup ∧ attempt.grantExpiresAt > now then .ok (db, .nothing)
    else if attempt.state = .initiating then
      (recoverInitiation env b attempt now db).map fun (db, next) =>
        (db, next.elim .nothing .lease)
    else if attempt.state = .completing ∧ attempt.mutationTokens ≠ [] then
      .ok ({ db with ledger := db.ledger.putAttempt (deferred env attempt now) }, .nothing)
    else if attempt.state = .completing ∨ attempt.state = .verifying ∨ attempt.state = .cleanup then
      let attempt' := withLease env db.ledger attempt now
      .ok ({ db with ledger := (db.ledger.putAttempt attempt').draw 1 }, .lease attempt')
    else .ok (db, .nothing)

/-- A failure without a code has one of its own. -/
def named : Outcome → Outcome
  | .failed "" => .failed "transfer_failed"
  | o => o

/-- The part of `Commit` after its checks. -/
def commit.apply (env : Env) (r : Record) (b : Blob) (current attempt : TransferAttempt)
    (o : Outcome) (clock : Clock) (db : Db) : Db :=
  let ledger := db.ledger.putAttempt (finished current attempt (named o) (clock 0))
  match o with
  | .uploading _ => { db with ledger := ledger.putBlob { b with state := .uploading } }
  | .verifying _ =>
    let r' := { r with expiresAt := max r.expiresAt (clock 0 + env.failureSeconds) }
    { db with ledger := (ledger.putRecord r').putBlob { b with state := .verifying } }
  | .verified size sha256 =>
    let b' := { b with
      objectKey := some current.objectKey, objectVersion := current.uploadHandle.version,
      verifiedSize := some size, verifiedSha256 := some sha256, state := .verified }
    { db with ledger := ledger.putBlob b' }
  | .failed _ => releaseRecord { db with ledger } r .failed fun i => clock (i + 1)
  | .cleaned => { db with
      ledger := ReleaseRule.go.cleanAttempt db.ledger b
        (finished current attempt .cleaned (clock 0)) }

/-- `Commit`: whether the outcome was committed. -/
def commit (env : Env) (attempt : TransferAttempt) (o : Outcome) (clock : Clock) (db : Db) :
    Except Error (Db × Bool) :=
  let now := clock 0
  match locked db.ledger attempt.id with
  | none | some (_, _, none) => .ok (db, false)
  | some (b, current, some r) =>
    if owned current attempt now = false ∨ current.state ≠ attempt.state then .ok (db, false)
    else do
      let markers ← tokens current
      if o ≠ .cleaned ∧ r.state ≠ .draft then return (db, false)
      else if o = .cleaned ∧ markers ≠ [] then
        let current' := requeued current "storage_mutation_uncertain" now
        return ({ db with ledger := db.ledger.putAttempt current' }, false)
      else
        return (emitOutcome (commit.apply env r b current attempt o clock db) b o (clock 3), true)

def retry (attempt : TransferAttempt) (code : String) (clock : Clock) (db : Db) : Db :=
  match locked db.ledger attempt.id with
  | none => db
  | some (_, current, _) =>
    if owned current attempt (clock 0) = false ∨ current.state ≠ attempt.state then db
    else { db with ledger := db.ledger.putAttempt (requeued current code (clock 0)) }

/-- `settleMutation`. -/
def settleMutation (attempt : TransferAttempt) (clock : Clock) (db : Db) : Except Error Db :=
  match locked db.ledger attempt.id with
  | none => .ok db
  | some (b, current, _) =>
    if current.objectKey ≠ attempt.objectKey then .ok db
    else do
      let _ ← tokens current
      if hasToken current attempt.token = false then return db
      else
        let current' := dropToken current attempt.token
        let ledger ← rearmCleanup (db.ledger.putAttempt current') b current' (clock 0)
        return { db with ledger }

/-- `abandon`. Once its marker is gone, the snapshot has no authority over the attempt. -/
def abandon (attempt : TransferAttempt) (clock : Clock) (db : Db) : Except Error Db :=
  match locked db.ledger attempt.id with
  | none => .ok db
  | some (b, current, _) => do
    let _ ← tokens current
    if current.objectKey ≠ attempt.objectKey ∨ hasToken current attempt.token = false then return db
    else
      let ledger ← rearmCleanup db.ledger b current (clock 0)
      return { db with ledger }

/-! ### Maintenance -/

/-- The transaction of `Expire` for one draft. -/
def expire (recordId : Id) (clock : Clock) (db : Db) : Db :=
  match db.ledger.record recordId with
  | none => db
  | some r =>
    if r.state = .draft ∧ r.expiresAt ≤ clock 0 then
      releaseRecord db r .expired fun i => clock (i + 1)
    else db

/-- `repairable`. -/
def repairable (attempt : TransferAttempt) (r : Record) (now : Time) : Bool :=
  ledgerValid attempt &&
  (attempt.state = .cleanup || attempt.state = .initiating || attempt.state = .completing ||
    r.state.terminal ||
    (attempt.state = .uploading && r.state = .draft && attempt.mutationTokens ≠ [] &&
      attempt.mutationTokens.all Token.isGatewayPut)) && !leased attempt now

/-- One pass of the loop of `RepairMutations`. -/
def repairAttempt (now : Time) (l : Ledger) (attempt : TransferAttempt) : Except Error Ledger := do
  let b ← found (err 409 "attempt_not_repairable") (l.blob attempt.blobId)
  let r ← found (err 409 "attempt_not_repairable") (l.record b.recordId)
  refuse (repairable attempt r now = false) (err 409 "attempt_not_repairable")
  let recover := decide (r.state = .draft ∧ attempt.state = .completing)
  return repairBlob (l.putAttempt (repaired attempt b recover now)) r b recover

/-- `RepairMutations` with `execute`. -/
def repairMutations (ids : List Id) (writersStopped providerQuiesced : Bool) (clock : Clock)
    (db : Db) : Except Error Db := do
  refuse (ids = [] ∨ ids.length > 100 ∨ ¬ ids.Nodup) (err 422 "invalid_attempt_selection")
  refuse (writersStopped = false ∨ providerQuiesced = false) (err 409 "storage_quiescence_required")
  let attempts := db.ledger.attempts.filter (·.id ∈ ids)
  refuse (attempts.length ≠ ids.length) (err 404 "attempt_not_found")
  let ledger ← attempts.foldlM (repairAttempt (clock 0)) db.ledger
  return { db with ledger }

end Hf2l.Exchange.Go.Transfers
