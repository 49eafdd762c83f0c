import Hf2l.Jobs.Artifacts.Retention
import Hf2l.Lib.Process
import Hf2l.Lib.Word
import Mathlib.Logic.Function.Basic

/-!
# `Hf2l.Jobs.Artifacts.LogStream`: log receipts and where they are stored

`internal/artifacts/logs.go`, the service of the manager. A log holder is an allocation (a
component that the manager runs) or an `external_execution` resource (a component that a
participant runs). Its cursor, `log_stream`, is in the holder's details. A receipt is a piece of
the component's log from one offset to another. `IngestComponentLogs` polls for the receipts of an
allocation, with one transaction before it reads a receipt and one after. `AppendExternalLogs`
takes the receipt that a participant sends, in one transaction. Both store a receipt through
`appendLogInTx`.

The digest behind `Key` is a parameter, since nothing depends on which digest it is, and so is
`ValidateIdentifier`. The identifiers of jobs and attempts are numbers here, and those are valid.

`accepted` is not in the source. It lists the receipts that moved a cursor, in that order.
-/

set_option autoImplicit false

namespace Hf2l.Jobs.Artifacts

open Lib Lib.Process Jobs.Scheduler

/-! ### Identities and receipts -/

def maxLogChunkBytes : Int := 65536

def maxCanonicalLogBytes : Int := 2 ^ 20

structure LogIdentity where
  jobId : Id
  attemptId : Id
  componentId : String
  epoch : Int
deriving DecidableEq

/-- `ValidateIdentifier` and `LogIdentity.Key`. -/
structure Naming where
  validIdentifier : String → Bool
  key : LogIdentity → String

/-- The component names the identity. -/
def plainNaming : Naming := ⟨fun _ => true, fun i => i.componentId⟩

def LogIdentity.validate (n : Naming) (i : LogIdentity) : Except Refusal Unit :=
  if !n.validIdentifier i.componentId ∨ i.epoch < 1 then throw ⟨422, "invalid_log_identity"⟩
  else pure ()

structure LogReceipt where
  identity : LogIdentity
  sourceId : String
  offset : Int
  nextOffset : Int
  content : String
  complete : Bool := false
  truncated : Bool := false
deriving DecidableEq

/-- `len(receipt.Content)`. -/
def LogReceipt.size (r : LogReceipt) : Int := r.content.utf8ByteSize

/-- The sum is in `int64`. -/
def LogReceipt.validate (n : Naming) (r : LogReceipt) (identity : LogIdentity) (offset : Int) :
    Except Refusal Unit := do
  identity.validate n
  if r.identity ≠ identity ∨ r.sourceId ≠ n.key identity ∨ r.offset ≠ offset ∨ offset < 0 ∨
      r.nextOffset ≠ Word.wrap (offset + r.size) ∨ r.nextOffset > maxCanonicalLogBytes ∨
      r.size > maxLogChunkBytes then
    throw ⟨422, "invalid_log_receipt"⟩

/-! ### Holders -/

/-- `log_stream`. A holder without one has the defaults. -/
structure LogStream where
  sourceId : String := ""
  offset : Int := 0
  complete : Bool := false
  truncated : Bool := false
  droppedBytes : Int := 0
  budgetExhausted : Bool := false
deriving DecidableEq

inductive Holder where
  | allocation (id : Id)
  | execution (id : ResourceId)
deriving DecidableEq

/-- What the details of an `external_execution` hold beside the cursor. -/
structure ExecutionDetails where
  nodeId : String := ""
  epoch : Int := 0
  logResourceId : Option ResourceId := none

structure LogDb where
  db : Db := {}
  executions : ResourceId → ExecutionDetails := fun _ => {}
  cursors : Holder → LogStream := fun _ => {}
  accepted : List (Holder × LogReceipt) := []

/-- The cursor says that the stream is another's. -/
def LogStream.foreign (n : Naming) (cursor : LogStream) (identity : LogIdentity) : Bool :=
  cursor.sourceId != "" && cursor.sourceId != n.key identity

/-- The new cursor of a holder is written, with the receipt that moved it. -/
def LogDb.accept (w : LogDb) (db : Db) (h : Holder) (receipt : LogReceipt) (cursor : LogStream) :
    LogDb :=
  { w with
    db := db
    cursors := Function.update w.cursors h cursor
    accepted := w.accepted ++ [(h, receipt)] }

/-- `logsExpired`. -/
def logsExpired (job : Option Job) (now : Time) : Bool :=
  match job with
  | none => true
  | some job =>
    job.purgedAt.isSome || job.cleanupStatus == .purgePending ||
      job.cleanupStatus == .expiryPending ||
      job.cleanupStatus == .expired || job.artifactsExpireAt.any fun expiry => decide (expiry ≤ now)

/-! ### Storing a receipt -/

def budgetMismatch : Refusal := ⟨409, "retained_log_budget_ownership_mismatch"⟩

/-- The budget is the one of this component in this attempt. -/
def ownsLogBudget (b : Resource) (jobId : Id) (attempt : Attempt) (component : String) : Bool :=
  b.kind == "log_budget" && b.jobId == jobId && b.attemptId == some attempt.id &&
    b.componentId == component &&
    b.externalId == some (logExternal jobId attempt.number component) &&
      b.ownership.jobId == some jobId &&
    b.ownership.componentId == some component && b.ownership.kind == some "log_budget" &&
    b.details.attemptNumber.getD 0 == attempt.number && b.details.componentId == some component

/-- `ownedLogBudget`. -/
def ownedLogBudget (db : Db) (jobId : Id) (attempt : Attempt) (component : String) :
    Option ResourceId → Except Refusal (Option Resource)
  | none => pure none
  | some id =>
    match Table.get (·.id) id db.resources with
    | none => throw budgetMismatch
    | some b =>
      if ownsLogBudget b jobId attempt component then pure (some b) else throw budgetMismatch

/-- `COALESCE(MAX(sequence),0)` of a component. -/
def lastSequence (db : Db) (jobId : Id) (component : String) : Nat :=
  (db.chunks.filter fun c => c.jobId == jobId && c.component == component).foldr
    (fun c n => max c.sequence n) 0

/-- The chunk that a receipt makes, before it is charged. -/
def newChunk (db : Db) (jobId : Id) (attempt : Attempt) (component content : String) : LogChunk :=
  { id := Table.fresh (·.id) db.chunks
    jobId := jobId
    attemptNumber := attempt.number
    component := component
    sequence := lastSequence db jobId component + 1
    data := content }

/-- `appendLogInTx`: how many bytes are stored. With a budget, `ChargeLogInTransaction` also reads
the job again and compares its project. -/
def appendLogInTx (db : Db) (project : Project) (jobId : Id) (attempt : Attempt)
    (component : String) (logResourceId : Option ResourceId) (content : String) :
    Except Refusal (Nat × Db) := do
  let budget ← ownedLogBudget db jobId attempt component logResourceId
  if budget.isSome ∧ projectOf db jobId ≠ some project.id then throw mismatch
  let (chunk, db) ← chargeLogInTransaction db project
      (newChunk db jobId attempt component content) budget
  return (chunk.data.utf8ByteSize, { db with chunks := db.chunks ++ [chunk] })

/-- `appendLogInTx` for a receipt that holds bytes, in a transaction that has locked the project. -/
def appendReceipt (db : Db) (project : Project) (jobId : Id) (attempt : Option Attempt)
    (component : String) (logResourceId : Option ResourceId) (receipt : LogReceipt)
    (absent : Refusal) : Except Refusal (Nat × Db) :=
  if receipt.content = "" then pure (0, db)
  else
    match attempt with
    | none => throw absent
    | some attempt => appendLogInTx db project jobId attempt component logResourceId receipt.content

/-- The attempt that the identity names. -/
def attemptFor (db : Db) (identity : LogIdentity) : Option Attempt :=
  (Table.get (·.id) identity.attemptId db.attempts).filter fun a =>
    a.jobId == identity.jobId && decide ((a.epoch : Int) = identity.epoch)

/-! ### Polling an allocation -/

def cursorConflict : Refusal := ⟨409, "log_cursor_conflict"⟩

/-- What the first transaction of a poll finds. -/
inductive Snapshot where
  | gone
  | expired
  | complete (truncated : Bool)
  | ready (projectId : String) (identity : LogIdentity) (offset : Int)

def identityOf (a : Allocation) : LogIdentity := ⟨a.jobId, a.attemptId, a.componentId, a.epoch⟩

/-- The first transaction of a poll. -/
def snapshot (n : Naming) (now : Time) (w : LogDb) (allocationId : Id) : Except Refusal Snapshot :=
  match Table.get (·.id) allocationId w.db.allocations with
  | none => pure .gone
  | some a =>
    match Table.get (·.id) a.jobId w.db.jobs with
    | none => pure .expired
    | some job =>
      let cursor := w.cursors (.allocation allocationId)
      if logsExpired (some job) now then pure .expired
      else if cursor.foreign n (identityOf a) then throw cursorConflict
      else if cursor.offset < 0 ∨ cursor.offset > maxCanonicalLogBytes then throw cursorConflict
      else if cursor.complete then pure (.complete cursor.truncated)
      else pure (.ready job.projectId (identityOf a) cursor.offset)

/-- What the second transaction of a poll has done. -/
inductive Ingested where
  | expired
  | conflict
  | stored (bytes : Nat) (exhausted : Bool)

/-- The cursor of an allocation after a receipt of which so many bytes were stored. -/
def LogStream.ingested (n : Naming) (cursor : LogStream) (receipt : LogReceipt)
    (identity : LogIdentity) (stored : Nat) : LogStream :=
  let dropped := receipt.size - stored
  let exhausted := cursor.budgetExhausted || decide (dropped > 0)
  { sourceId := n.key identity
    offset := receipt.nextOffset
    complete := receipt.complete
    truncated := receipt.truncated || exhausted
    droppedBytes := cursor.droppedBytes + dropped
    budgetExhausted := exhausted }

/-- The second transaction of a poll. -/
def ingest (n : Naming) (now : Time) (w : LogDb) (allocationId : Id) (projectId : String)
    (identity : LogIdentity) (offset : Int) (receipt : LogReceipt) :
    Except Refusal (Ingested × LogDb) :=
  match Table.get (·.id) projectId w.db.projects,
    Table.get (·.id) allocationId w.db.allocations with
  | some project, some row =>
    let cursor := w.cursors (.allocation allocationId)
    if identityOf row ≠ identity ∨ logsExpired (Table.get (·.id) identity.jobId w.db.jobs) now then
      pure (.expired, w)
    else if cursor.offset ≠ offset ∨ cursor.foreign n identity then pure (.conflict, w)
    else do
      let (stored, db) ← appendReceipt w.db project identity.jobId (attemptFor w.db identity)
          row.componentId
        row.details.logResourceId receipt ⟨422, "invalid_log_receipt"⟩
      let cursor := cursor.ingested n receipt identity stored
      return (.stored stored cursor.budgetExhausted,
        w.accept db (.allocation allocationId) receipt cursor)
  | _, _ => pure (.expired, w)

inductive LogStatus where
  | unavailable
  | expired
  | complete
  | quotaExceeded
  | concurrentPoll
  | limitReached
  | caughtUp
  | moreAvailable
deriving DecidableEq, Repr

structure LogIngestResult where
  status : LogStatus := .unavailable
  chunks : Nat := 0
  bytes : Nat := 0
  complete : Bool := false
  truncated : Bool := false
deriving DecidableEq, Repr

inductive LogOp where
  | snapshot (allocationId : Id)
  | readLogs (identity : LogIdentity) (offset maxBytes : Int)
  | ingest (allocationId : Id) (projectId : String) (identity : LogIdentity) (offset : Int)
    (receipt : LogReceipt)

@[reducible] def LogAns : LogOp → Type
  | .snapshot _ => Except Refusal Snapshot
  | .readLogs _ _ _ => Except Refusal LogReceipt
  | .ingest _ _ _ _ _ => Except Refusal Ingested

/-- A poll ends with its result, and with what it was refused. -/
abbrev Poll := Prog LogOp LogAns (LogIngestResult × Option Refusal)

/-- The result after a receipt was stored. -/
def LogIngestResult.received (result : LogIngestResult) (receipt : LogReceipt) (stored : Nat)
    (exhausted : Bool) :
    LogIngestResult :=
  { result with
    chunks := if stored > 0 then result.chunks + 1 else result.chunks
    bytes := result.bytes + stored
    complete := receipt.complete
    truncated := receipt.truncated || exhausted }

/-- The status of a poll that ends after this receipt. -/
def endStatus (receipt : LogReceipt) (exhausted : Bool) : LogStatus :=
  if exhausted then .limitReached
  else if receipt.complete then .complete
  else if receipt.size = 0 then .caughtUp
  else .moreAvailable

/-- The loop of `IngestComponentLogs`, with so many iterations left. -/
def pollLoop (n : Naming) (allocationId : Id) (terminal : Bool) :
    Nat → Bool → LogIngestResult → Poll
  | 0, exhausted, result =>
    .ret ({ result with status := if exhausted then .limitReached else .moreAvailable }, none)
  | left + 1, _, result =>
    .call (.snapshot allocationId) fun
      | .error e => .ret (result, some e)
      | .ok .gone => .ret (result, none)
      | .ok .expired => .ret ({ result with status := .expired }, none)
      | .ok (.complete truncated) =>
        .ret ({ result with status := .complete, complete := true, truncated := truncated }, none)
      | .ok (.ready projectId identity offset) =>
        .call (.readLogs identity offset maxLogChunkBytes) fun
          | .error e => .ret (result, some e)
          | .ok receipt =>
            match receipt.validate n identity offset with
            | .error e => .ret (result, some e)
            | .ok () =>
              .call (.ingest allocationId projectId identity offset receipt) fun
                | .error e =>
                  if e.code = "retained_storage_quota_exceeded" then
                    .ret ({ result with status := .quotaExceeded }, none)
                  else .ret (result, some e)
                | .ok .expired => .ret ({ result with status := .expired }, none)
                | .ok .conflict => .ret ({ result with status := .concurrentPoll }, none)
                | .ok (.stored stored exhausted) =>
                  let result := result.received receipt stored exhausted
                  if receipt.complete ∨ receipt.size = 0 ∨ !terminal then
                    .ret ({ result with status := endStatus receipt exhausted }, none)
                  else pollLoop n allocationId terminal left exhausted result

/-- `IngestComponentLogs`. `reader` says that there is a `ReadLogs`. -/
def ingestComponentLogs (n : Naming) (reader : Bool) (allocationId : Id) (terminal : Bool)
    (maxChunks : Int) : Poll :=
  if maxChunks < 1 ∨ maxChunks > 32 then .ret ({}, some ⟨422, "invalid_log_bound"⟩)
  else if !reader then .ret ({}, none)
  else pollLoop n allocationId terminal maxChunks.toNat false {}

/-! ### Deliveries of participants -/

/-- The resource is the execution that the identity names, at this node. -/
def ownsExecution (n : Naming) (r : Resource) (d : ExecutionDetails) (identity : LogIdentity)
    (nodeId : String) :
    Bool :=
  r.kind == "external_execution" && r.jobId == identity.jobId &&
    r.attemptId == some identity.attemptId &&
    r.componentId == identity.componentId && r.externalId == some (n.key identity) &&
    r.ownership.jobId == some identity.jobId && r.ownership.attemptId == some identity.attemptId &&
    r.ownership.componentId == some identity.componentId && d.nodeId == nodeId &&
      decide (d.epoch = identity.epoch) &&
    !deleted r

/-- What a participant is told. -/
structure Delivered where
  nextOffset : Int
  complete : Bool
  truncated : Bool
deriving DecidableEq

/-- The cursor of an execution after a receipt of which so many bytes were stored. What was
complete or truncated stays so. -/
def LogStream.delivered (n : Naming) (cursor : LogStream) (receipt : LogReceipt)
    (identity : LogIdentity) (stored : Nat) : LogStream :=
  let dropped := receipt.size - stored
  let exhausted := cursor.budgetExhausted || decide (dropped > 0)
  { sourceId := n.key identity
    offset := receipt.nextOffset
    complete := receipt.complete || cursor.complete
    truncated := receipt.truncated || cursor.truncated || exhausted
    droppedBytes := cursor.droppedBytes + dropped
    budgetExhausted := exhausted }

def LogStream.told (cursor : LogStream) : Delivered :=
  ⟨cursor.offset, cursor.complete, cursor.truncated⟩

def assignmentNotFound : Refusal := ⟨404, "participant_assignment_not_found"⟩

/-- A receipt for an execution that is the participant's own. A receipt that ends before the
cursor is a replay, and is acknowledged with nothing done. -/
def deliver (n : Naming) (w : LogDb) (project : Project) (identity : LogIdentity)
    (attempt : Attempt) (resource : Resource) (receipt : LogReceipt) :
    Except Refusal (Delivered × LogDb) :=
  let h := Holder.execution resource.id
  let cursor := w.cursors h
  if cursor.offset < 0 ∨ cursor.offset > maxCanonicalLogBytes ∨ cursor.foreign n identity then
    throw cursorConflict
  else if receipt.offset < cursor.offset ∧ receipt.nextOffset ≤ cursor.offset then
    pure (cursor.told, w)
  else if receipt.offset ≠ cursor.offset then throw cursorConflict
  else if cursor.complete ∧ receipt.content ≠ "" then throw ⟨409, "log_stream_already_complete"⟩
  else do
    let (stored, db) ← appendReceipt w.db project identity.jobId (some attempt) resource.componentId
      (w.executions resource.id).logResourceId receipt assignmentNotFound
    let cursor := cursor.delivered n receipt identity stored
    return (cursor.told, w.accept db h receipt cursor)

/-- `AppendExternalLogs`. The project of a job exists (`FOREIGN KEY`). -/
def appendExternalLogs (n : Naming) (now : Time) (w : LogDb) (identity : LogIdentity)
    (receipt : LogReceipt) (resourceId : ResourceId) (nodeId : String) :
    Except Refusal (Delivered × LogDb) := do
  if nodeId = "" then throw ⟨422, "invalid_log_identity"⟩
  receipt.validate n identity receipt.offset
  match Table.get (·.id) identity.jobId w.db.jobs with
  | none => throw assignmentNotFound
  | some job =>
    match Table.get (·.id) job.projectId w.db.projects, Table.get (·.id) resourceId w.db.resources,
        attemptFor w.db identity with
    | some project, some resource, some attempt =>
      if !ownsExecution n resource (w.executions resourceId) identity nodeId then
        throw assignmentNotFound
      else if logsExpired (some job) now then throw ⟨410, "job_logs_expired"⟩
      else deliver n w project identity attempt resource receipt
    | _, _, _ => throw assignmentNotFound

/-! ### The service -/

/-- How a transaction ends: as it should, with nothing written and an error, or with all written
and an error. -/
inductive Commit where
  | reported
  | rolledBack
  | unreported
deriving DecidableEq, Repr

/-- An error of the database. -/
def databaseError : Refusal := ⟨500, "internal_error"⟩

/-- A transaction that writes. -/
def commit {α : Type} (w : LogDb) (r : Except Refusal (α × LogDb)) :
    Commit → Except Refusal α × LogDb
  | .reported =>
    match r with
    | .ok (a, w') => (.ok a, w')
    | .error e => (.error e, w)
  | .rolledBack => (.error databaseError, w)
  | .unreported =>
    match r with
    | .ok (_, w') => (.error databaseError, w')
    | .error e => (.error e, w)

/-- One call of a poll at a time `now`. What `ReadLogs` answers is not the manager's. -/
def takeCall (n : Naming) (now : Time) (receipt : Except Refusal LogReceipt) (c : Commit) :
    (op : LogOp) → LogDb → LogAns op × LogDb
  | .snapshot allocationId, w =>
    (if c = .reported then snapshot n now w allocationId else .error databaseError, w)
  | .readLogs _ _ _, w => (receipt, w)
  | .ingest allocationId projectId identity offset receipt, w =>
    commit w (ingest n now w allocationId projectId identity offset receipt) c

structure PollProcess where
  pid : Nat
  program : Poll

structure LogService where
  world : LogDb := {}
  polls : List PollProcess := []
  next : Nat := 0

inductive LogAction where
  | poll (reader : Bool) (allocationId : Id) (terminal : Bool) (maxChunks : Int)
  | proceed (pid : Nat) (now : Time) (receipt : Except Refusal LogReceipt) (c : Commit)
  | deliver (now : Time) (identity : LogIdentity) (receipt : LogReceipt) (resourceId : ResourceId)
    (nodeId : String)
      (c : Commit)
  | kill (pid : Nat)

/-- Polls take their calls in any order, and deliveries come in between. -/
def logStep (n : Naming) (s : LogService) : LogAction → LogService
  | .poll reader allocationId terminal maxChunks =>
    { s with
      polls := s.polls ++ [⟨s.next, ingestComponentLogs n reader allocationId terminal maxChunks⟩]
      next := s.next + 1 }
  | .proceed pid now receipt c =>
    match Table.get (·.pid) pid s.polls with
    | none => s
    | some p =>
      match p.program with
      | .ret _ => { s with polls := s.polls.filter fun q => decide (q.pid ≠ pid) }
      | .call op next =>
        let (a, w) := takeCall n now receipt c op s.world
        { s with world := w, polls := Table.put (·.pid) { p with program := next a } s.polls }
  | .deliver now identity receipt resourceId nodeId c =>
    { s with world := (commit s.world
      (appendExternalLogs n now s.world identity receipt resourceId nodeId) c).2 }
  | .kill pid => { s with polls := s.polls.filter fun q => decide (q.pid ≠ pid) }

end Hf2l.Jobs.Artifacts
