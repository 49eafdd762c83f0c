import Hf2l.Exchange.Python.Commands
import Hf2l.Exchange.Service.Attempts

/-!
# `Hf2l.Exchange.Python.Transfers`: the transactions of `transfers.py`

The transactions of uploads, gateway PUTs and executions. The module `System` puts them and
the provider calls in sequence.
-/

set_option autoImplicit false

namespace Hf2l.Exchange.Python.Transfers

open Lib
open Service (transaction record attachment)
open Attempts

/-! ### Uploads -/

section
variable (env : Env) (p : Principal)

def initiate (recordId attachmentId : Id) (clock : Clock) (db : Db) : Except Error (Db × Next) := do
  let member ← transaction env db p .write (clock 0)
  let rb ← recordAndBlob db recordId attachmentId member p true
  let b := rb.2
  refuse (rb.1.state ≠ .draft) (err 409 "record_not_draft")
  match db.ledger.active b.id with
  | some attempt => return (db, .answer (view b (some attempt)))
  | none =>
    if b.state = .verified ∨ b.state = .failed ∨ b.state = .cleaned then
      return (db, .answer (view b none))
    else
      let prior := db.ledger.attemptsOf b.id
      refuse (prior.any (·.mutationTokens ≠ []) = true) (err 409 "storage_mutation_uncertain")
      refuse (prior.any (·.state = .cleanup) = true) (err 409 "cleanup_pending")
      refuse (rb.1.expiresAt ≤ clock 1) (err 409 "draft_expired")
      let attempt := db.ledger.newAttempt env b (clock 1)
      return ({ db with ledger := db.ledger.openAttempt b attempt }, .execute attempt)

/-- The first transaction of `grants`, which reads. -/
def grants.prepare (recordId attachmentId : Id) (numbers : List Nat)
    (clock : Clock) (db : Db) : Except Error SigningRequest := do
  refuse (numbers = [] ∨ numbers.length > 100 ∨ ¬ numbers.Nodup) (err 422 "invalid_part_numbers")
  let member ← transaction env db p .read (clock 0)
  let rb ← recordAndBlob db recordId attachmentId member p true
  let attempt ← found (err 409 "upload_not_ready") (db.ledger.active rb.2.id)
  refuse (rb.1.state ≠ .draft ∨ rb.1.expiresAt ≤ clock 1 ∨ attempt.state ≠ .uploading)
    (err 409 "upload_not_ready")
  let uploadId ← upload attempt
  let sizes ← numbers.mapM fun n => partSizeFor n rb.2.size rb.2.partSize
  return ⟨recordId, attachmentId, attempt.id, uploadId, numbers, sizes,
    clock 1 + grantSeconds env rb.1 (clock 1)⟩

/-- The second transaction of `grants`: the URLs are exposed only if their expiry is recorded.
`expiries` are those the signer gave, at least one. -/
def grants.expose (request : SigningRequest) (expiry : Time)
    (expiries : List Time) (clock : Clock) (db : Db) : Except Error Db := do
  let member ← transaction env db p .write (clock 0)
  let rb ← recordAndBlob db request.recordId request.attachmentId member p true
  let attempt ← found (err 409 "upload_not_ready") (db.ledger.attempt request.attemptId)
  refuse (rb.1.state ≠ .draft ∨ rb.1.expiresAt ≤ clock 1 ∨ attempt.state ≠ .uploading)
    (err 409 "upload_not_ready")
  return { db with ledger := raiseGrant db.ledger rb.2 attempt (expiries.foldl max expiry) }

/-! ### Gateway PUTs -/

/-- The first transaction of `begin_gateway_put`: the marker of the PUT enters the ledger
before any provider call. -/
def beginGatewayPut.admission (recordId attachmentId : Id) (part : Nat)
    (clock : Clock) (db : Db) : Except Error (Db × GatewayPutHandle) := do
  refuse (p.workload.isNone = true) (err 403 "workload_identity_required")
  refuse (part < 1 ∨ 10000 < part) (err 422 "invalid_part_numbers")
  let member ← transaction env db p .write (clock 0)
  let rb ← recordAndBlob db recordId attachmentId member p true
  let b := rb.2
  let attempt ← found (err 409 "upload_not_ready") (db.ledger.active b.id)
  refuse (rb.1.state ≠ .draft ∨ rb.1.expiresAt ≤ clock 1 ∨ b.pendingDeletion = true ∨
    attempt.state ≠ .uploading) (err 409 "upload_not_ready")
  let uploadId ← (upload attempt).mapError fun _ => err 409 "upload_not_ready"
  let key := attempt.objectKey
  refuse (attempt.uploadHandle.key ≠ some key ∨ key.spaceId ≠ db.ledger.space.id ∨
    key.blobId ≠ b.id ∨ key.attemptId ≠ attempt.id) (err 409 "upload_not_ready")
  let _ ← (partSizeFor part b.size b.partSize).mapError fun _ => err 422 "invalid_part_numbers"
  refuse (attempt.mutationTokens.length ≥ 100) (err 409 "storage_mutation_uncertain")
  let token : Token := .gatewayPut part (db.ledger.fresh 0)
  let attempt' := { attempt with
    mutationTokens := attempt.mutationTokens ++ [token], updatedAt := clock 1 }
  return ({ db with ledger := (db.ledger.putAttempt attempt').draw 1 },
    ⟨recordId, attachmentId, attempt.id, key, uploadId, part, token⟩)

/-- The second transaction of `begin_gateway_put`. -/
def beginGatewayPut.expose (h : GatewayPutHandle) (expiry : Time) (clock : Clock) (db : Db) :
    Except Error Db := do
  let member ← transaction env db p .write (clock 0)
  let rb ← recordAndBlob db h.recordId h.attachmentId member p true
  let current ← found (err 409 "upload_not_ready") (db.ledger.attempt h.attemptId)
  refuse (rb.1.state ≠ .draft ∨ rb.1.expiresAt ≤ clock 1 ∨ current.state ≠ .uploading ∨
    holdsMarker current h = false) (err 409 "upload_not_ready")
  return { db with ledger := raiseGrant db.ledger rb.2 current expiry }

end

/-- `_rearm_cleanup`: an attempt that is to be cleaned, or was, goes back behind the cleanup
barrier. -/
def rearmCleanup (l : Ledger) (b : Blob) (current : TransferAttempt) (now : Time) :
    Except Error Ledger :=
  if current.state = .cleanup ∨ current.state = .cleaned then do
    let r ← found Error.internal (l.record b.recordId)
    return l.rearm r b current now
  else .ok l

/-- `finish_gateway_put`: settle a PUT that is known to have ended. -/
def finishGatewayPut (h : GatewayPutHandle) (clock : Clock) (db : Db) : Except Error (Db × Bool) :=
  if handleWellFormed h = false then .ok (db, false)
  else
    match db.ledger.blob h.attachmentId, db.ledger.attempt h.attemptId with
    | some b, some current =>
      if b.recordId ≠ h.recordId ∨ holdsMarker current h = false then .ok (db, false)
      else do
        let current' := { dropToken current (some h.token) with updatedAt := clock 0 }
        let ledger ← rearmCleanup (db.ledger.putAttempt current') b current' (clock 1)
        return ({ db with ledger }, true)
    | _, _ => .ok (db, false)

/-! ### Completion and download -/

section
variable (env : Env) (p : Principal) (recordId attachmentId : Id)

/-- The first transaction of `complete`. -/
def complete (clock : Clock) (db : Db) : Except Error (Db × Next) := do
  let member ← transaction env db p .write (clock 0)
  let rb ← recordAndBlob db recordId attachmentId member p true
  let b := rb.2
  refuse (rb.1.state ≠ .draft) (err 409 "record_not_draft")
  match db.ledger.active b.id with
  | none => return (db, .answer (view b none))
  | some attempt =>
    if attempt.state ≠ .uploading then return (db, .answer (view b (some attempt)))
    else
      refuse (rb.1.expiresAt ≤ clock 1) (err 409 "draft_expired")
      refuse (attempt.mutationTokens ≠ []) (err 409 "storage_mutation_uncertain")
      let token : Token := .lease (db.ledger.fresh 0)
      let attempt' : TransferAttempt := { attempt with
        state := .completing, token := some token, leaseUntil := some (clock 1 + env.leaseSeconds),
        mutationTokens := attempt.mutationTokens ++ [token], updatedAt := clock 1,
        nextAttempt := clock 1 }
      let ledger := (db.ledger.putAttempt attempt').putBlob { b with state := .completing }
      return ({ db with ledger := ledger.draw 1 }, .execute attempt')

/-- The first transaction of `download`, which reads the object to be signed for. -/
def download.prepare (clock : Clock) (db : Db) :
    Except Error (Option ObjectKey × Option String) := do
  let member ← transaction env db p .read (clock 0)
  let rb ← recordAndBlob db recordId attachmentId member p false
  downloadable rb.1 rb.2
  return (rb.2.objectKey, rb.2.objectVersion)

/-- The second transaction of `download`. -/
def download.expose (expiry : Time) (clock : Clock) (db : Db) : Except Error Db := do
  let member ← transaction env db p .write (clock 0)
  let rb ← recordAndBlob db recordId attachmentId member p false
  let b := rb.2
  downloadable rb.1 b
  match db.ledger.active b.id with
  | some attempt => return { db with ledger := raiseGrant db.ledger b attempt expiry }
  | none =>
    let ledger := db.ledger.putBlob { b with grantExpiresAt := max b.grantExpiresAt expiry }
    return { db with ledger }

end

/-! ### Executions -/

/-- `acquire`: lease the work of an attempt. `cleanup` restricts it to one worker pool. -/
def acquire (env : Env) (attemptId : Id) (cleanup : Option Bool) (clock : Clock) (db : Db) :
    Except Error (Db × Option TransferAttempt) :=
  let now := clock 0
  match db.ledger.attempt attemptId with
  | none => .ok (db, none)
  | some attempt => do
    let b ← found Error.internal (db.ledger.blob attempt.blobId)
    if cleanup.any (· ≠ decide (attempt.state = .cleanup)) then return (db, none)
    else if attempt.nextAttempt > now ∨ leased attempt now = true then return (db, none)
    else if attempt.state = .cleanup ∧ attempt.mutationTokens ≠ [] then
      return ({ db with ledger := db.ledger.putAttempt (deferred env attempt now) }, none)
    else if attempt.state = .cleanup ∧ attempt.grantExpiresAt > now then return (db, none)
    else if attempt.state = .initiating then recoverInitiation env b attempt now db
    else if attempt.state = .completing ∧ attempt.mutationTokens ≠ [] then
      return ({ db with ledger := db.ledger.putAttempt (deferred env attempt now) }, none)
    else if attempt.state = .completing ∨ attempt.state = .verifying ∨ attempt.state = .cleanup then
      let attempt' := withLease env db.ledger attempt now
      return ({ db with ledger := (db.ledger.putAttempt attempt').draw 1 }, some attempt')
    else return (db, none)

/-- The part of `commit` after its checks. -/
def commit.apply (env : Env) (r : Record) (b : Blob) (current attempt : TransferAttempt)
    (o : Outcome) (clock : Clock) (db : Db) : Except Error Db :=
  let ledger := db.ledger.putAttempt (finished current attempt o (clock 0))
  match o with
  | .uploading _ => .ok { db with ledger := ledger.putBlob { b with state := .uploading } }
  | .verifying _ =>
    let r' := { r with expiresAt := max r.expiresAt (clock 0 + env.failureSeconds) }
    .ok { db with ledger := (ledger.putRecord r').putBlob { b with state := .verifying } }
  | .verified size sha256 => do
    let version ← found Error.internal current.uploadHandle.version
    let b' := { b with
      objectKey := some current.objectKey, objectVersion := some version,
      verifiedSize := some size, verifiedSha256 := some sha256, state := .verified }
    return { db with ledger := ledger.putBlob b' }
  | .failed _ => .ok (release { db with ledger } r .failed fun i => clock (i + 1))
  | .cleaned => .ok { db with
      ledger := ReleaseRule.python.cleanAttempt db.ledger b
        (finished current attempt .cleaned (clock 0)) }

/-- `commit`: whether the outcome was committed. -/
def commit (env : Env) (attempt : TransferAttempt) (o : Outcome) (clock : Clock) (db : Db) :
    Except Error (Db × Bool) := do
  let b ← found Error.internal (db.ledger.blob attempt.blobId)
  let current ← found Error.internal (db.ledger.attempt attempt.id)
  let r ← found Error.internal (db.ledger.record b.recordId)
  let now := clock 0
  if owned current attempt now = false ∨ current.state ≠ attempt.state then return (db, false)
  else if o ≠ .cleaned ∧ r.state ≠ .draft then return (db, false)
  else if o = .cleaned ∧ current.mutationTokens ≠ [] then
    -- A lease fences writers of the database, never a provider call.
    let current' := requeued current "storage_mutation_uncertain" now
    return ({ db with ledger := db.ledger.putAttempt current' }, false)
  else
    let db ← commit.apply env r b current attempt o clock db
    return (emitOutcome db b o (clock 3), true)

section
variable (attempt : TransferAttempt) (clock : Clock) (db : Db)

/-- `_settle_mutation`: the call is settled and cleanup re-armed in one transaction. -/
def settleMutation : Except Error Db :=
  match db.ledger.blob attempt.blobId, db.ledger.attempt attempt.id with
  | some b, some current =>
    if current.mutationTokens.any (some · = attempt.token) then do
      let current' := dropToken current attempt.token
      let ledger ← rearmCleanup (db.ledger.putAttempt current') b current' (clock 0)
      return { db with ledger }
    else .ok db
  | _, _ => .ok db

/-- `_abandon`. It does not ask whether the attempt still has the marker of the snapshot. -/
def abandon : Except Error Db :=
  match db.ledger.blob attempt.blobId, db.ledger.attempt attempt.id with
  | some b, some current => do
    let ledger ← rearmCleanup db.ledger b current (clock 0)
    return { db with ledger }
  | _, _ => .ok db

/-- The transaction before a cleanup call: the lease is still held and nothing is in flight. -/
def cleanupAllowed : Except Error Bool := do
  let _ ← found Error.internal (db.ledger.blob attempt.blobId)
  match db.ledger.attempt attempt.id with
  | none => return false
  | some current => return (current.state = .cleanup && current.mutationTokens = [] &&
      owned current attempt (clock 0))

end

/-- An upload has taken longer than the worker allows. -/
def deadlinePassed (env : Env) (attempt : TransferAttempt) (now : Time) : Bool :=
  attempt.state ≠ .cleanup && now - attempt.updatedAt > env.failureSeconds

/-! ### Maintenance -/

/-- The transaction of `expire` for one draft. -/
def expire (recordId : Id) (clock : Clock) (db : Db) : Except Error Db := do
  let r ← found Error.internal (db.ledger.record recordId)
  if r.state = .draft ∧ r.expiresAt ≤ clock 0 then
    return release db r .expired fun i => clock (i + 1)
  else return db

/-- The rows that `prune` has selected, to be deleted by their keys. -/
structure Selection where
  operations : List (Id × String × String)
  attempts : List Id

/-- The queries of `prune`. `operations` and `attempts` choose, among the rows that have outlived
their retention, the batch that the limit leaves. -/
def prune.select (env : Env) (operations : Operation → Bool) (attempts : TransferAttempt → Bool)
    (now : Time) (db : Db) : Selection where
  operations := (db.operations.filter fun o =>
    decide (o.createdAt < now - env.operationRetentionSeconds) && operations o).map fun o =>
      (o.principalId, o.scope, o.key)
  attempts := (db.ledger.attempts.filter fun a => prunable env now a && attempts a).map
    TransferAttempt.id

/-- The deletions of `prune`. They take no lock before, and do not look at the rows again. -/
def prune.delete (rows : Selection) (db : Db) : Db :=
  { db with
      operations := db.operations.filter fun o => (o.principalId, o.scope, o.key) ∉ rows.operations
      ledger := { db.ledger with
        attempts := db.ledger.attempts.filter fun a => a.id ∉ rows.attempts } }

/-- `_repairable`. -/
def repairable (attempt : TransferAttempt) (r : Record) (now : Time) : Bool :=
  (attempt.state = .cleanup || attempt.state = .initiating || attempt.state = .completing ||
    r.state.terminal ||
    (attempt.state = .uploading && r.state = .draft && attempt.mutationTokens ≠ [] &&
      attempt.mutationTokens.all Token.isGatewayPut)) && !leased attempt now

/-- One pass of the loop of `repair_mutations`. -/
def repairAttempt (now : Time) (l : Ledger) (attempt : TransferAttempt) : Except Error Ledger := do
  let b ← found Error.internal (l.blob attempt.blobId)
  let r ← found Error.internal (l.record b.recordId)
  refuse (repairable attempt r now = false) (err 409 "attempt_not_repairable")
  let recover := decide (r.state = .draft ∧ attempt.state = .completing)
  return repairBlob (l.putAttempt (repaired attempt b recover now)) r b recover

/-- `repair_mutations` with `execute`: the operator asserts that all writers have stopped and
that the provider carries out no call. -/
def repairMutations (ids : List Id) (writersStopped providerQuiesced : Bool) (clock : Clock)
    (db : Db) : Except Error Db := do
  refuse (ids = [] ∨ ids.length > 100 ∨ ¬ ids.Nodup) (err 422 "invalid_attempt_selection")
  refuse (writersStopped = false ∨ providerQuiesced = false) (err 409 "storage_quiescence_required")
  let attempts := db.ledger.attempts.filter (·.id ∈ ids)
  refuse (attempts.length ≠ ids.length) (err 404 "attempt_not_found")
  let ledger ← attempts.foldlM (repairAttempt (clock 0)) db.ledger
  return { db with ledger }

end Hf2l.Exchange.Python.Transfers
