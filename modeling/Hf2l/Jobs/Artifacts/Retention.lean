import Hf2l.Jobs.Scheduler.Accounting

/-!
# `Hf2l.Jobs.Artifacts.Retention`: the ledger of retained bytes

`internal/artifacts/retention.go`. A project pays for the bytes that its jobs keep:
`retained_bytes` goes up when a resource or a log chunk is charged or reserved, and down when
a reservation is settled below its maximum or when a deletion is confirmed. The charge of a
resource is in its details (`retention_charged_bytes`), the charge of a log chunk in the chunk.

Every operation is one transaction: it returns the database it commits, or a refusal, and
then nothing is written. The rows an operation works on are read and locked inside it. A sum
is in `int64`. Detail keys that are written and never read are left out.
-/

set_option autoImplicit false

namespace Hf2l.Jobs.Artifacts

open Lib Jobs.Scheduler

/-- `domain.Err`. -/
structure Refusal where
  status : Nat
  code : String
deriving DecidableEq, Repr

def inconsistent : Refusal := ⟨409, "retained_storage_ledger_inconsistent"⟩

def mismatch : Refusal := ⟨409, "retained_resource_ownership_mismatch"⟩

def invalidSize : Refusal := ⟨422, "invalid_retained_size"⟩

def alreadyDeleted : Refusal := ⟨409, "retained_resource_already_deleted"⟩

def chargeConflict : Refusal := ⟨409, "retained_resource_charge_conflict"⟩

def exceedsReservation : Refusal := ⟨409, "retained_resource_exceeds_reservation"⟩

/-- `sumBytes`. -/
def sumBytes (a b : Int) : Except Refusal Int :=
  if a < 0 ∨ b < 0 ∨ a > maxInt64 - b then throw inconsistent else pure (a + b)

/-- `projectReserve`. -/
def projectReserve (db : Db) (project : Project) (amount : Int) : Except Refusal Db := do
  if amount < 0 then throw invalidSize
  let total ← sumBytes project.retainedBytes amount
  if (reserveLimit project).any fun limit => decide ((limit : Int) < total) then
    throw ⟨409, "retained_storage_quota_exceeded"⟩
  return updateProject db project.id fun p =>
    { p with retainedBytes := total, version := project.version + 1 }

/-- `retained_bytes` goes down by bytes that it is known to hold. -/
def projectRelease (db : Db) (project : Project) (amount : Int) (versions : Nat) : Db :=
  updateProject db project.id fun p =>
    { p with
      retainedBytes := project.retainedBytes - amount, version := project.version + versions }

/-- The rows that an operation on one resource has locked. -/
structure Locked where
  project : Project
  job : Job
  resource : Resource
  pool : Option Pool

/-- The pool that a resource names, if it names one. -/
def poolOf (db : Db) (r : Resource) : Except Refusal (Option Pool) :=
  match r.details.poolId with
  | none => pure none
  | some id =>
    if id = "" then throw ⟨409, "retained_resource_pool_not_found"⟩
    else
      match Table.get (·.id) id db.pools with
      | none => throw ⟨409, "retained_resource_pool_not_found"⟩
      | some pool => pure (some pool)

/-- `lockResource`. -/
def lockResource (db : Db) (resourceId : ResourceId) (jobId : Id) : Except Refusal Locked :=
  match Table.get (·.id) resourceId db.resources with
  | none => throw mismatch
  | some resource =>
    if resource.jobId ≠ jobId ∨ resource.ownership.jobId ≠ some jobId then throw mismatch
    else do
      let pool ← poolOf db resource
      match Table.get (·.id) jobId db.jobs with
      | none => throw ⟨404, "job_not_found"⟩
      | some job =>
        match Table.get (·.id) job.projectId db.projects with
        | none => throw mismatch
        | some project => pure { project, job, resource, pool }

/-- `reservePool`. -/
def reservePool (db : Db) (resource : Resource) (pool : Option Pool) (amount : Int) :
    Except Refusal Unit :=
  match pool with
  | none => pure ()
  | some pool =>
    if resource.kind = "execution_state" then pure ()
    else do
      let used ← (poolUsedBytes .go db pool.id (some resource.id)).mapError fun _ => inconsistent
      if amount < 0 ∨ used > pool.diskBytes ∨ amount > pool.diskBytes - used then
        throw ⟨409, "retained_pool_storage_unavailable"⟩

def deleted (r : Resource) : Bool := r.state == .deleted || r.deletedAt.isSome

/-- A charge that no settlement is to come for. -/
def settled (d : ResourceDetails) : Bool :=
  d.retentionChargeSettled.getD d.retentionReservationBytes.isNone

/-! ### Charges -/

/-- The row of a resource that was charged at once. -/
def chargedRow (r : Resource) (size : Nat) : Resource :=
  { r with
    retained := true
    sizeBytes := size
    details := { r.details with
      retentionChargedBytes := some size, retentionChargeReleased :=
        false, retentionChargeSettled := some true } }

/-- `ChargeInTransaction`. -/
def chargeInTransaction (db : Db) (resource : Resource) (project : Project) (size : Int) :
    Except Refusal Db := do
  if size < 0 then throw invalidSize
  match resource.details.retentionChargedBytes with
  | some old =>
    if (old : Int) ≠ size ∨ resource.details.retentionChargeReleased = true then
      throw chargeConflict
    return db
  | none =>
    if deleted resource then throw alreadyDeleted
    let db ← projectReserve db project size
    return updateResource db resource.id fun _ => chargedRow resource size.toNat

/-- `ReserveInTransaction`. The row that it leaves is `chargedResource`. -/
def reserveInTransaction (db : Db) (resource : Resource) (project : Project) (pool : Option Pool)
    (maximum : Int) : Except Refusal Db := do
  let d := resource.details
  if maximum < 0 then throw invalidSize
  if deleted resource then throw alreadyDeleted
  if d.poolId.any (· ≠ "") ∧ d.poolId ≠ pool.map (·.id) then
    throw ⟨409, "retained_resource_pool_context_required"⟩
  if d.retentionChargeReleased then throw chargeConflict
  match d.retentionChargedBytes with
  | some charged =>
    if settled d then
      if (charged : Int) > maximum then throw exceedsReservation
    else if (d.retentionReservationBytes.getD 0 : Int) ≠ maximum then
      throw ⟨409, "retained_resource_reservation_conflict"⟩
    return db
  | none =>
    reservePool db resource pool maximum
    let db ← projectReserve db project maximum
    return updateResource db resource.id fun _ => chargedResource resource maximum.toNat

/-- `ReserveResource`. -/
def reserveResource (db : Db) (resourceId : ResourceId) (jobId : Id) (maximum : Int) :
    Except Refusal Db := do
  let l ← lockResource db resourceId jobId
  reserveInTransaction db l.resource l.project l.pool maximum

/-- `ChargeResource`. -/
def chargeResource (db : Db) (resourceId : ResourceId) (jobId : Id) (size : Int) :
    Except Refusal Db := do
  let l ← lockResource db resourceId jobId
  reservePool db l.resource l.pool size
  chargeInTransaction db l.resource l.project size

/-- The row of a reservation that was settled. -/
def settledRow (r : Resource) (actual : Nat) : Resource :=
  { r with
    sizeBytes := actual
    details := { r.details with
      retentionChargedBytes := some actual, retentionChargeSettled := some true } }

/-- `SettleResource`. -/
def settleResource (db : Db) (resourceId : ResourceId) (jobId : Id) (actual : Int) :
    Except Refusal Db := do
  if actual < 0 then throw invalidSize
  let l ← lockResource db resourceId jobId
  let d := l.resource.details
  if deleted l.resource ∨ d.retentionChargeReleased = true then throw alreadyDeleted
  match d.retentionChargedBytes with
  | none => throw ⟨409, "retained_resource_reservation_required"⟩
  | some charged =>
    if settled d then
      if (charged : Int) ≠ actual then throw chargeConflict
      return db
    else if actual > (d.retentionReservationBytes.getD 0 : Int) then throw exceedsReservation
    else
      let release := (charged : Int) - actual
      if release < 0 ∨ l.project.retainedBytes < release then throw inconsistent
      let db := projectRelease db l.project release (if release > 0 then 1 else 0)
      return updateResource db l.resource.id fun _ => settledRow l.resource actual.toNat

/-! ### Log chunks -/

/-- The longest start of a text that has at most so many bytes. -/
def takeBytes : List Char → Int → List Char
  | [], _ => []
  | c :: cs, room => if (c.utf8Size : Int) ≤ room then c :: takeBytes cs (room - c.utf8Size) else []

/-- `utf8Prefix`. -/
def utf8Prefix (content : String) (maximum : Int) : String :=
  String.ofList (takeBytes content.toList maximum)

def exhaustedMarker : String := "[manager log budget exhausted; further output omitted]\n"

/-- What is kept of a chunk's content. -/
def keptContent (d : ResourceDetails) (content : String) (remaining : Int) : String :=
  if d.logBudgetExhausted then ""
  else if (content.utf8ByteSize : Int) > remaining then
    if remaining ≥ exhaustedMarker.utf8ByteSize then
      utf8Prefix content (remaining - exhaustedMarker.utf8ByteSize) ++ exhaustedMarker
    else utf8Prefix content remaining
  else content

/-- The external identifier of a log budget. -/
def logExternal (jobId : Id) (attemptNumber : Nat) (component : String) : String :=
  "hf2l-log://" ++ toString jobId ++ "/" ++ toString attemptNumber ++ "/" ++ component

def logOwnership (jobId : Id) (component : String) : Ownership :=
  { jobId := some jobId, componentId := some component, kind := some "log_budget" }

/-- The budget is the one of the chunk. -/
def ownsChunk (budget : Resource) (chunk : LogChunk) : Bool :=
  budget.jobId == chunk.jobId && budget.componentId == chunk.component &&
    budget.kind == "log_budget" &&
    budget.ownership == logOwnership chunk.jobId chunk.component &&
    budget.details.attemptNumber.getD 0 == chunk.attemptNumber &&
    budget.externalId == some (logExternal chunk.jobId chunk.attemptNumber chunk.component) &&
    !deleted budget && !budget.details.retentionChargeReleased && budget.retained

/-- The budget of a chunk with what the chunk takes of it. -/
def consumedRow (budget : Resource) (chunk : LogChunk) (kept : String) (truncated : Bool) :
    Resource :=
  let d := budget.details
  let consumed := d.logConsumedBytes + kept.utf8ByteSize
  { budget with details := { d with
    logConsumedBytes := consumed
    logLastSequence := chunk.sequence
    logTruncated := d.logTruncated || truncated
    logBudgetExhausted := d.logBudgetExhausted || truncated ||
      consumed == d.retentionReservationBytes.getD 0 } }

/-- `ChargeLogInTransaction` for a chunk with a budget. The budget pays, so the chunk itself
is charged nothing. -/
def chargeBudget (db : Db) (project : Project) (chunk : LogChunk) (budget : Resource) :
    Except Refusal (LogChunk × Db) :=
  let d := budget.details
  let maximum := d.retentionReservationBytes.getD 0
  if !ownsChunk budget chunk then throw mismatch
  else if d.logConsumedBytes > maximum ∨ d.retentionChargedBytes.getD 0 ≠ maximum ∨
    budget.sizeBytes ≠ maximum ∨ project.retainedBytes < maximum ∨ maximum > 2 ^ 20 then
    throw inconsistent
  else if chunk.sequence ≤ d.logLastSequence then
    match Table.get (·.id) chunk.id db.chunks with
    | none => throw ⟨409, "retained_log_charge_conflict"⟩
    | some previous =>
      if previous.jobId ≠ chunk.jobId ∨ previous.component ≠ chunk.component ∨
          previous.attemptNumber ≠ chunk.attemptNumber ∨ previous.chargedBytes ≠ 0 then
        throw ⟨409, "retained_log_charge_conflict"⟩
      else pure (chunk, db)
  else if chunk.chargedBytes ≠ 0 then throw ⟨409, "retained_log_charge_conflict"⟩
  else
    let remaining : Int := maximum - d.logConsumedBytes
    let truncated := decide ((chunk.data.utf8ByteSize : Int) > remaining) || d.logBudgetExhausted
    let kept := keptContent d chunk.data remaining
    pure ({ chunk with data := kept, chargedBytes := 0 },
      updateResource db budget.id fun _ => consumedRow budget chunk kept truncated)

/-- `ChargeLogInTransaction`. -/
def chargeLogInTransaction (db : Db) (project : Project) (chunk : LogChunk)
    (budget : Option Resource) :
    Except Refusal (LogChunk × Db) := do
  if chunk.data.utf8ByteSize > 65536 then throw ⟨422, "log_chunk_exceeds_bound"⟩
  match budget with
  | some budget => chargeBudget db project chunk budget
  | none =>
    if chunk.chargedBytes ≠ 0 then
      if chunk.chargedBytes ≠ chunk.data.utf8ByteSize then
        throw ⟨409, "retained_log_charge_conflict"⟩
      return (chunk, db)
    let db ← projectReserve db project chunk.data.utf8ByteSize
    return ({ chunk with chargedBytes := chunk.data.utf8ByteSize }, db)

/-- The chunk that a call is about: the stored one if it is a replay, and otherwise a new one
that is charged nothing yet (`appendLogInTx`). -/
def presented (db : Db) (chunk : LogChunk) : LogChunk :=
  (Table.get (·.id) chunk.id db.chunks).getD { chunk with chargedBytes := 0, deletedAt := none }

/-- The caller stores the chunk in the same transaction. -/
def storeChunk (db : Db) (chunk : LogChunk) : Db :=
  if (Table.get (·.id) chunk.id db.chunks).isSome then
    { db with chunks := Table.put (·.id) chunk db.chunks }
  else { db with chunks := db.chunks ++ [chunk] }

/-- The budget of the call. -/
def budgetOf (db : Db) : Option ResourceId → Except Refusal (Option Resource)
  | none => pure none
  | some id =>
    match Table.get (·.id) id db.resources with
    | none => throw ⟨409, "retained_log_budget_ownership_mismatch"⟩
    | some budget => pure (some budget)

/-- A chunk is charged and stored. -/
def chargeLog (db : Db) (chunk : LogChunk) (budgetId : Option ResourceId) : Except Refusal Db := do
  let chunk := presented db chunk
  match Table.get (·.id) chunk.jobId db.jobs with
  | none => throw ⟨404, "job_not_found"⟩
  | some job =>
    match Table.get (·.id) job.projectId db.projects with
    | none => throw mismatch
    | some project =>
      let budget ← budgetOf db budgetId
      let (chunk, db) ← chargeLogInTransaction db project chunk budget
      return storeChunk db chunk

/-! ### Deletions -/

/-- The row of a resource whose charge was given back. -/
def releasedRow (r : Resource) : Resource :=
  { r with details := { r.details with retentionChargeReleased := true } }

/-- `ConfirmResourceDeleted`. -/
def confirmResourceDeleted (db : Db) (resourceId : ResourceId) (jobId : Id) :
    Except Refusal Db := do
  let l ← lockResource db resourceId jobId
  if l.resource.state ≠ .deleted ∨ l.resource.deletedAt = none then
    throw ⟨409, "resource_deletion_unconfirmed"⟩
  if l.resource.details.retentionChargeReleased then return db
  let amount : Int := l.resource.details.retentionChargedBytes.getD 0
  if l.project.retainedBytes < amount then throw inconsistent
  let db := projectRelease db l.project amount 1
  return updateResource db l.resource.id fun _ => releasedRow l.resource

/-- `ownedDatabaseLogs`: the budget of logs that are rows of this database. -/
def ownedDatabaseLogs (r : Resource) (jobId : Id) : Bool :=
  let number := r.details.attemptNumber.getD 0
  r.kind == "log_budget" && decide (1 ≤ number) &&
    r.ownership == logOwnership jobId r.componentId &&
    r.externalId == some (logExternal jobId number r.componentId) &&
    r.details.retentionReservationBytes.any fun maximum =>
      r.details.retentionChargedBytes.getD 0 == maximum && r.sizeBytes == maximum

/-- What is left of the resource is known to be gone, or was only ever a record. -/
def gone (r : Resource) (jobId : Id) : Bool :=
  (r.state == .deleted && r.deletedAt.isSome) ||
    (r.state == .other "retired" && (r.kind == "exchange_space" || r.kind == "exchange_member") &&
      r.sizeBytes == 0 && r.details.retentionChargedBytes.getD 0 == 0) ||
    ownedDatabaseLogs r jobId

/-- What a resource still owes to its project. -/
def owed (r : Resource) : Int :=
  if r.details.retentionChargeReleased then 0 else r.details.retentionChargedBytes.getD 0

/-- The row of a resource of a job whose data is gone. -/
def confirmedRow (jobId : Id) (now : Time) (r : Resource) : Resource :=
  let state := if ownedDatabaseLogs r jobId then .deleted else r.state
  let deletedAt := if ownedDatabaseLogs r jobId then r.deletedAt.or (some now) else r.deletedAt
  { releasedRow r with state := state, deletedAt := deletedAt }

/-- The row of a log chunk of such a job. -/
def erasedChunk (now : Time) (c : LogChunk) : LogChunk :=
  { c with chargedBytes := 0, data := "", deletedAt := c.deletedAt.or (some now) }

/-- Add up with `sumBytes`. -/
def sumAll (start : Int) (amounts : List Int) : Except Refusal Int := amounts.foldlM sumBytes start

/-- The rows once the data of a job is gone. -/
def erasedDb (db : Db) (jobId : Id) (now : Time) : Db :=
  { db with
    resources := db.resources.map fun r => if r.jobId == jobId && r.retained then
      confirmedRow jobId now r else r
    chunks := db.chunks.map fun c => if c.jobId == jobId then erasedChunk now c else c
    jobs := Table.modify (·.id) jobId (fun j => if j.cleanupStatus = .expired then j else
      { j with cleanupStatus := .expired, version := j.version + 1 }) db.jobs }

/-- `ConfirmJobDataDeleted`. The marks on artifacts and the event are left out. -/
def confirmJobDataDeleted (db : Db) (jobId : Id) (now : Time) : Except Refusal Db :=
  match Table.get (·.id) jobId db.jobs with
  | none => throw ⟨404, "job_not_found"⟩
  | some job =>
    match Table.get (·.id) job.projectId db.projects with
    | none => throw mismatch
    | some project => do
      if job.state.terminal = false then throw ⟨409, "retention_requires_terminal"⟩
      if db.allocations.any fun a => a.jobId == jobId && a.releasedAt.isNone then
        throw ⟨409, "resource_deletion_unconfirmed"⟩
      let rows := db.resources.filter fun r => r.jobId == jobId && r.retained
      if rows.any fun r => !gone r jobId then throw ⟨409, "resource_deletion_unconfirmed"⟩
      let released ← sumAll 0 (rows.map owed)
      let released ← sumAll released
          ((db.chunks.filter fun c => c.jobId == jobId).map fun c => (c.chargedBytes : Int))
      if project.retainedBytes < released then throw inconsistent
      return erasedDb (projectRelease db project released (if released > 0 then 1 else 0)) jobId now

/-! ### Transfers -/

/-- The parts of a collection, by resource. -/
def manifest (children : List Resource) : List (ResourceId × Nat) :=
  children.map fun c => (c.id, c.sizeBytes)

/-- Two manifests with distinct keys are the same map. -/
def sameManifest (a b : List (ResourceId × Nat)) : Bool := a.length == b.length && a.all (· ∈ b)

/-- A resource that can be a part of the collection. -/
def fitsCollection (reservation child : Resource) : Bool :=
  child.id != reservation.id && child.jobId == reservation.jobId &&
    child.ownership.jobId == some reservation.jobId && !deleted child &&
      child.kind != "execution_state" &&
    (child.details.poolId.isNone || child.details.poolId == reservation.details.poolId)

/-- The row of a part that was charged out of the reservation. -/
def transferredRow (reservation child : Resource) : Resource :=
  { child with
    retained := true
    details := { child.details with
      retentionChargedBytes := some child.sizeBytes
      retentionChargeReleased := false
      retentionChargeSettled := some true
      retentionReservationSource := some reservation.id
      poolId := reservation.details.poolId.or child.details.poolId } }

/-- The loop over the parts: what is left of the reservation, what was moved, the rows. -/
structure Moving where
  available : Int
  transferred : Int := 0
  db : Db

def transferChild (reservation : Resource) (wasSettled : Bool) (m : Moving) (child : Resource) :
    Except Refusal Moving :=
  match child.details.retentionChargedBytes with
  | some charge =>
    if charge ≠ child.sizeBytes ∨ child.details.retentionChargeReleased = true ∨
        child.details.retentionReservationSource ≠ some reservation.id then
      throw chargeConflict
    else pure m
  | none =>
    if wasSettled = true ∨ (child.sizeBytes : Int) > m.available then throw exceedsReservation
    else pure {
      available := m.available - child.sizeBytes
      transferred := m.transferred + child.sizeBytes
      db := updateResource m.db child.id fun _ => transferredRow reservation child }

/-- The row of a reservation once its parts have left it. -/
def collectedRow (r : Resource) (parts : List (ResourceId × Nat)) (retainUnused : Bool)
    (remaining transferred : Nat) :
    Resource :=
  { r with
    sizeBytes := remaining
    details := { r.details with
      retentionChargedBytes := some remaining
      retentionChargeSettled := some true
      retentionRetainUnused := retainUnused
      retentionCollectionManifest := some parts
      retentionTransferredBytes := r.details.retentionTransferredBytes + transferred } }

/-- `TransferReservedInTransaction`. -/
def transferReservedInTransaction (db : Db) (reservation : Resource) (project : Project)
    (children : List Resource) (retainUnused : Bool) : Except Refusal Db := do
  let d := reservation.details
  if children.length > 10000 then throw ⟨422, "invalid_retained_collection"⟩
  if reservation.ownership.jobId ≠ some reservation.jobId ∨ deleted reservation = true then
    throw mismatch
  if d.retentionReservationBytes = none ∨ d.retentionChargeReleased = true then
    throw ⟨409, "retained_resource_reservation_required"⟩
  if !(children.all fun c => fitsCollection reservation c) ∨ ¬ (children.map (·.id)).Nodup then
    throw mismatch
  let wasSettled := d.retentionChargeSettled.getD false
  if wasSettled then
    if d.retentionRetainUnused ≠ retainUnused then throw chargeConflict
    if d.retentionCollectionManifest.any fun m => !sameManifest m (manifest children) then
      throw chargeConflict
  let m ← children.foldlM (transferChild reservation wasSettled)
    { available := d.retentionChargedBytes.getD 0, db }
  if project.retainedBytes < m.available then throw inconsistent
  let released : Int := if !wasSettled && !retainUnused then m.available else 0
  let remaining : Int := if retainUnused then m.available else 0
  let db := projectRelease m.db project released (if released > 0 then 1 else 0)
  return updateResource db reservation.id fun _ =>
    collectedRow reservation (manifest children) retainUnused remaining.toNat m.transferred.toNat

/-- The rows that a list of identifiers names. -/
def rowsOf (db : Db) (ids : List ResourceId) : Except Refusal (List Resource) :=
  ids.mapM fun id =>
    match Table.get (·.id) id db.resources with
    | none => throw inconsistent
    | some r => pure r

/-- The transfer of `StoreCollected`: unused bytes stay with the reservation. -/
def transferReserved (db : Db) (reservationId : ResourceId) (children : List ResourceId) :
    Except Refusal Db :=
  match Table.get (·.id) reservationId db.resources with
  | none => throw ⟨409, "retained_resource_reservation_required"⟩
  | some reservation =>
    match Table.get (·.id) reservation.jobId db.jobs with
    | none => throw mismatch
    | some job =>
      match Table.get (·.id) job.projectId db.projects with
      | none => throw mismatch
      | some project => do
        let children ← rowsOf db children
        transferReservedInTransaction db reservation project children true

end Hf2l.Jobs.Artifacts
