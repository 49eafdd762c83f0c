import Hf2l.Lib.Table

/-!
# `Hf2l.Jobs.Store.Rows`: the tables of the job manager

The rows that the scheduler, the retention and the ingestion of logs read and write
(`internal/store/schema.json`). The Go manager and the Python reference run on this schema.

A JSON column is a record of the keys that the code reads; a key that may be absent is an
`Option`. Columns that none of these functions reads back are left out: display names, most
timestamps, the outcome of jobs and attempts and the leases of the outbox; so are the tables of
operations, events, members and stored responses.

`domain.NewID()` is random. An `Id` is a number, and a new row takes one above every
identifier of its table (`Table.fresh`), so it is never one that a row has or had. Hashed
keys (`stableKey`) keep the parts that are hashed, so two of them are equal only if their
parts are. Times are whole seconds.
-/

set_option autoImplicit false

namespace Hf2l.Jobs

open Lib

/-- An identifier from `domain.NewID()`. -/
abbrev Id := Nat

/-- Seconds of the database clock. -/
abbrev Time := Int

/-! ### Vocabulary -/

/-- The `state` of a job. -/
inductive JobState where
  | queued
  | provisioning
  | starting
  | running
  | reconciling
  | needsAttention
  | cancelling
  | succeeded
  | failed
  | cancelled
deriving DecidableEq, Repr

/-- `domain.IsTerminal`, and `terminal` of the controller. -/
def JobState.terminal : JobState → Bool
  | .succeeded | .failed | .cancelled => true
  | _ => false

/-- The `phase` of a job. -/
inductive Phase where
  | waitingResources
  | reserving
  | fetching
  | building
  | starting
  | initializing
  | aggregating
  | waitingParticipants
  | waitingComponents
  | training
  | publishing
  | collectingResults
  | fencing
  | deadlineExceeded
  | retryPending
  | verifyingEvidence
  | reconciliationRequired
  | finished
deriving DecidableEq, Repr

/-- The state of an attempt. `terminalTx` writes the outcome of the job over it. -/
inductive AttemptState where
  | queued
  | provisioning
  | starting
  | running
  | stopped
  | succeeded
  | failed
  | cancelled
deriving DecidableEq, Repr

/-- The `state` of an allocation. -/
inductive AllocationState where
  | reserved
  | acknowledged
  | starting
  | running
  | quarantined
  | releasing
  | released
deriving DecidableEq, Repr

/-- Membership in `LiveAllocationStates`. -/
def AllocationState.live : AllocationState → Bool
  | .released => false
  | _ => true

/-- The `cleanup_status` of a job. -/
inductive CleanupStatus where
  | none
  | pending
  | complete
  | failed
  | purgePending
  | expiryPending
  | expired
deriving DecidableEq, Repr

/-- The `Dimensions` of a resource request. -/
inductive Dimension where
  | cpuMillicores
  | memoryBytes
  | diskBytes
  | gpuCount
deriving DecidableEq, Repr

def dimensions : List Dimension := [.cpuMillicores, .memoryBytes, .diskBytes, .gpuCount]

/-- The `queue_reason` column. -/
inductive QueueReason where
  | awaitingScheduler
  | nodeQuarantine (poolId : Option String)
  | dependencies (availableAt : Option Time)
  | unavailableProfile
  | quota
  | capacity (shortages : List (String × List (Dimension × Int)))
  | olderRequest
deriving DecidableEq, Repr

/-- The `topic` of an outbox item. -/
inductive Topic where
  | dispatch
  | restoreProxies
  | fenceStop
  | prepareRetry
  | reconcile
  | cleanup
  | purge
  | expireArtifacts
deriving DecidableEq, Repr

/-- The `state` of a resource. -/
inductive ResourceState where
  | planned
  | ready
  | retained
  | deleted
  | other (name : String)
deriving DecidableEq, Repr

/-! ### The job specification -/

/-- What a component asks of a pool. -/
structure ResourceRequest where
  poolId : String
  cpuMillicores : Nat
  memoryBytes : Nat
  diskBytes : Nat
  gpuCount : Nat := 0
  gpuProfile : Option String := none
  sandboxProfile : String := "runsc-cpu-v1"
deriving DecidableEq

/-- The `role` of a component. -/
inductive ComponentRole where
  | owner
  | participant
  | build
deriving DecidableEq, Repr

/-- A component of a job. -/
structure ComponentSpec where
  componentId : String
  role : ComponentRole
  resources : ResourceRequest
deriving DecidableEq

/-- A participant of a job. -/
structure ParticipantSpec where
  participantId : String
  /-- `mode` is `external`. -/
  external : Bool
deriving DecidableEq

/-- A specification that `JobSpec.Validate` accepts. `digest` is the text that
`JobSpec.Digest` computes from it. -/
structure JobSpec where
  components : List ComponentSpec
  participants : List ParticipantSpec := []
  targetRound : Nat
  maxDurationSeconds : Nat
  digest : String
  distinct : (components.map (·.componentId)).Nodup

/-! ### Identifiers that are hashed from their parts -/

/-- The identifier of a resource. -/
inductive ResourceId where
  /-- `stableKey("resource", job, kind, external)` -/
  | owned (jobId : Id) (kind externalId : String)
  /-- An identifier of another form. -/
  | other (id : Id)
deriving DecidableEq

/-- The `idempotency_key` of an outbox item. -/
inductive OutboxKey where
  /-- The scheduler's `topic:job:attempt:epoch:version`. -/
  | scheduled (topic : Topic) (jobId : Id) (attempt : Option Id) (number epoch version : Nat)
  /-- A key of another form. -/
  | other (key : String)
deriving DecidableEq

/-! ### JSON columns -/

/-- `details_json` of a resource, and the details of a storage plan. -/
structure ResourceDetails where
  poolId : Option String := none
  componentId : Option String := none
  attemptNumber : Option Nat := none
  reservationMaxBytes : Option Nat := none
  coveredByAllocation : Bool := false
  specDigest : Option String := none
  quotaBytes : Option Nat := none
  principalQuotaBytes : Option Nat := none
  retentionChargedBytes : Option Nat := none
  retentionReservationBytes : Option Nat := none
  retentionChargeSettled : Option Bool := none
  retentionChargeReleased : Bool := false
  retentionRetainUnused : Bool := false
  /-- What was moved out of a reservation, by resource. -/
  retentionCollectionManifest : Option (List (ResourceId × Nat)) := none
  retentionReservationSource : Option ResourceId := none
  retentionTransferredBytes : Nat := 0
  logConsumedBytes : Nat := 0
  logLastSequence : Nat := 0
  logTruncated : Bool := false
  logBudgetExhausted : Bool := false
  /-- Of an enrollment: the participant's last execution has stopped. -/
  terminationConfirmed : Bool := false
deriving DecidableEq

/-- `ownership_json` of a resource. -/
structure Ownership where
  jobId : Option Id := none
  componentId : Option String := none
  kind : Option String := none
  participantId : Option String := none
  attemptId : Option Id := none
  epoch : Option Nat := none
deriving DecidableEq

/-- `details_json` of an allocation. -/
structure AllocationDetails where
  nodeId : String
  collectionResourceId : Option ResourceId := none
  logResourceId : Option ResourceId := none
  retainedResourceId : Option ResourceId := none
  retainedDiskCharged : Bool := false
  storageDeleted : Bool := false
deriving DecidableEq

/-- `payload_json` of an outbox item. -/
structure Payload where
  reason : Option String := none
  epoch : Option Nat := none
deriving DecidableEq

/-- `quotas_json` of a project. -/
structure Quotas where
  cpuMillicores : Option Nat := none
  memoryBytes : Option Nat := none
  diskBytes : Option Nat := none
  gpuCount : Option Nat := none
  retainedBytes : Option Nat := none
  maxRunningJobs : Option Nat := none
deriving DecidableEq

/-! ### Rows -/

/-- A pool of a node. -/
structure Pool where
  id : String
  nodeId : String
  cpuMillicores : Nat
  memoryBytes : Nat
  diskBytes : Nat
  gpuUuids : List String := []
  gpuProfiles : List String := []
  sandboxProfiles : List String := []
  healthy : Bool := false
  quarantined : Bool := false
deriving DecidableEq

/-- A project: quotas and retained bytes. -/
structure Project where
  id : String
  quotaCpuMillicores : Option Nat := none
  quotaMemoryBytes : Option Nat := none
  quotaDiskBytes : Option Nat := none
  quotaGpus : Option Nat := none
  maxActiveJobs : Option Nat := none
  quotas : Quotas := {}
  retainedBytes : Int := 0
  version : Nat := 1
deriving DecidableEq

/-- A job. -/
structure Job where
  id : Id
  projectId : String
  spec : JobSpec
  state : JobState := .queued
  phase : Option Phase := none
  queueReason : Option QueueReason := none
  version : Nat := 1
  currentAttempt : Nat := 0
  epoch : Nat := 0
  backfillCount : Nat := 0
  cleanupStatus : CleanupStatus := .none
  deadlineAt : Option Time := none
  nextAttemptAt : Option Time := none
  createdAt : Time
  artifactsExpireAt : Option Time := none
  purgedAt : Option Time := none

/-- An attempt to run a job. -/
structure Attempt where
  id : Id
  jobId : Id
  number : Nat
  epoch : Nat
  state : AttemptState
  terminationConfirmed : Bool := false
deriving DecidableEq

/-- What an attempt holds of a pool. -/
structure Allocation where
  id : Id
  jobId : Id
  attemptId : Id
  componentId : String
  poolId : String
  cpuMillicores : Nat
  memoryBytes : Nat
  diskBytes : Nat
  gpuCount : Nat := 0
  epoch : Nat
  state : AllocationState := .reserved
  terminationConfirmed : Bool := false
  details : AllocationDetails
  releasedAt : Option Time := none
deriving DecidableEq

/-- A device of an allocation. -/
structure GpuAllocation where
  id : Id
  allocationId : Id
  poolId : String
  gpuUuid : String
  releasedAt : Option Time := none
deriving DecidableEq

/-- Something that a job owns. -/
structure Resource where
  id : ResourceId
  jobId : Id
  attemptId : Option Id := none
  componentId : String
  kind : String
  externalId : Option String := none
  ownership : Ownership := {}
  details : ResourceDetails := {}
  state : ResourceState := .planned
  retained : Bool := false
  sizeBytes : Nat := 0
  deletedAt : Option Time := none
deriving DecidableEq

/-- Work for the dispatcher. -/
structure OutboxItem where
  id : Id
  jobId : Id
  attemptId : Option Id := none
  attemptNumber : Nat
  topic : Topic
  payload : Payload := {}
  key : OutboxKey
  createdAt : Time
deriving DecidableEq

/-- A stored piece of a log. -/
structure LogChunk where
  id : Id
  jobId : Id
  attemptNumber : Nat
  component : String
  sequence : Nat
  data : String
  chargedBytes : Nat := 0
  deletedAt : Option Time := none
deriving DecidableEq

/-- The database. -/
structure Db where
  pools : List Pool := []
  projects : List Project := []
  jobs : List Job := []
  attempts : List Attempt := []
  allocations : List Allocation := []
  gpus : List GpuAllocation := []
  resources : List Resource := []
  outbox : List OutboxItem := []
  chunks : List LogChunk := []

/-! ### Amounts -/

/-- An amount in each dimension. -/
abbrev Amounts := Dimension → Int

/-- `values`: what a component asks for. -/
def ResourceRequest.amount (r : ResourceRequest) : Dimension → Nat
  | .cpuMillicores => r.cpuMillicores
  | .memoryBytes => r.memoryBytes
  | .diskBytes => r.diskBytes
  | .gpuCount => r.gpuCount

def Allocation.amount (a : Allocation) : Dimension → Nat
  | .cpuMillicores => a.cpuMillicores
  | .memoryBytes => a.memoryBytes
  | .diskBytes => a.diskBytes
  | .gpuCount => a.gpuCount

/-- `PoolCapacity`: a pool has as many GPUs as it lists. -/
def Pool.capacity (p : Pool) : Dimension → Nat
  | .cpuMillicores => p.cpuMillicores
  | .memoryBytes => p.memoryBytes
  | .diskBytes => p.diskBytes
  | .gpuCount => p.gpuUuids.length

def Allocation.live (a : Allocation) : Bool := a.state.live

end Hf2l.Jobs
