import Hf2l.Jobs.Scheduler.Gpus

/-!
# `Hf2l.Jobs.Scheduler.Pass`: one scheduling pass

`Schedule` of the Go scheduler and `schedule` of the Python reference. A pass is one
transaction. It reads the queue in the order of submission and gives each job a `Verdict`:
wait for a stated reason, close because its deadline has passed, be blocked by a lack of
capacity, or be admitted as a gang. `evaluate` finds the verdict and writes nothing; `settle`
carries it out. An abort rolls the whole pass back.

While it runs a pass keeps its own totals (`Pass`): what each pool and each project has given
away, the devices in use, and the jobs that it found blocked. In the source the rows of jobs
and projects are kept in memory too, and every change is written to both; here there is the
database only.

The storage planner is a parameter: any function that reads the database. So are the hash
that names an external participant's component and the letters and digits of Unicode.
-/

set_option autoImplicit false

namespace Hf2l.Jobs

open Lib

/-- What a job needs on disk beside its components. Produced by trusted provisioning. -/
structure StoragePlan where
  kind : String
  externalId : String
  componentId : String
  poolId : String
  maxBytes : Nat
  coveredByAllocation : Bool := false
  details : ResourceDetails := {}
deriving DecidableEq

structure Scheduler where
  dialect : Scheduler.Dialect
  planner : Db → Job → Except Scheduler.Abort (List StoragePlan)
  /-- `unicode.IsLetter` or `unicode.IsNumber`. -/
  letterOrNumber : Char → Bool
  externalComponent : String → String

namespace Scheduler

structure Admission where
  jobId : Id
  attemptId : Id
  epoch : Nat
  allocationIds : List Id
deriving DecidableEq, Repr

/-- The running totals of a pass. -/
structure Pass where
  db : Db
  /-- What each pool has given away. -/
  used : Ledger := fun _ => zero
  /-- What the live allocations of each project take from its quota. -/
  projectUsed : Ledger := fun _ => zero
  /-- The jobs that had live allocations when the pass began. -/
  active : List Id := []
  /-- The devices in use. -/
  occupied : List String := []
  /-- The live allocations, each with its job and project. -/
  running : List (Id × String) := []
  /-- The jobs of this pass that lack capacity, oldest first. -/
  blocked : List (Id × Shortages) := []
  admitted : List Admission := []

/-! ### The totals at the start -/

def liveAllocations (db : Db) : List Allocation := db.allocations.filter (·.live)

/-- One live allocation in the totals. -/
def account (d : Dialect) (p : Pass) (a : Allocation) : Except Abort Pass :=
  match Table.get (·.id) a.jobId p.db.jobs with
  | none => throw (.error "allocation has no owned job")
  | some job => do
    let covered := reservedResourceCovered d p.db a
    let used ← p.used.add d a.poolId fun k => a.amount k
    let projectUsed ← p.projectUsed.add d job.projectId fun k =>
      if k = .diskBytes ∧ covered = true then 0 else a.amount k
    return { p with
      used := used
      projectUsed := projectUsed
      active := p.active ++ [a.jobId]
      running := p.running ++ [(a.jobId, job.projectId)] }

/-- The disk of a pool is counted with its retained volumes. -/
def accountDisk (d : Dialect) (p : Pass) (pool : Pool) : Except Abort Pass := do
  let n ← poolUsedBytes d p.db pool.id none
  let amounts : Amounts := fun k => if k = .diskBytes then n else p.used pool.id k
  return { p with used := p.used.set pool.id amounts }

def start (d : Dialect) (db : Db) : Except Abort Pass := do
  let p ← (liveAllocations db).foldlM (account d) { db }
  let p ← db.pools.foldlM (accountDisk d) p
  return { p with occupied := (db.gpus.filter (·.releasedAt.isNone)).map (·.gpuUuid) }

/-! ### Storage plans -/

/-- The key of an allocation's details that names a budget. -/
inductive Pointer where
  | collection
  | log
  | retained
deriving DecidableEq, Repr

def resourcePointer (kind : String) : Option Pointer :=
  if kind = "collection_budget" then some .collection
  else if kind = "log_budget" then some .log
  else if kind = "execution_state" then some .retained
  else none

/-- A budget that the allocation of a component is to name. -/
structure Link where
  componentId : String
  pointer : Pointer
  resourceId : ResourceId
deriving DecidableEq

/-- `links[component][pointer] = resource`. -/
def setLink (links : List Link) (componentId : String) (pointer : Pointer) (id : ResourceId) :
    List Link :=
  (links.filter fun l => !(l.componentId == componentId && l.pointer == pointer)) ++
    [⟨componentId, pointer, id⟩]

/-- The link of a plan, for the kinds that have one. -/
def linkPlan (links : List Link) (plan : StoragePlan) (id : ResourceId) : List Link :=
  match resourcePointer plan.kind with
  | none => links
  | some pointer => setLink links plan.componentId pointer id

/-- A plan that has to be charged, with its row if there is one. -/
structure StorageEntry where
  plan : StoragePlan
  row : Option Resource

/-- What the examination of a job's plans has found so far. -/
structure Planned where
  request : Request
  storage : List StorageEntry := []
  links : List Link := []
  coveredExisting : Int := 0
  seen : List (String × String) := []

inductive Examined where
  | unavailable (poolId : String)
  | planned (planned : Planned)

def ownership (job : Job) (plan : StoragePlan) : Ownership :=
  { jobId := some job.id, componentId := some plan.componentId, kind := some plan.kind }

/-- The row of a plan. -/
def resourceOf (db : Db) (plan : StoragePlan) : Option Resource :=
  db.resources.find? fun r => r.kind == plan.kind && r.externalId == some plan.externalId

/-- The row is charged, and its charge was not given back. -/
def prepaid (r : Resource) : Bool :=
  r.details.retentionChargedBytes.isSome && !r.details.retentionChargeReleased

section
variable (s : Scheduler)

def validKind (kind : String) : Bool :=
  decide (1 ≤ kind.toList.length) && decide (kind.toList.length ≤ 64) &&
    kind.toList.all (fun c => c == '_' || s.letterOrNumber c) && kind.toList.any (· != '_')

def externalComponents (job : Job) : List String :=
  (job.spec.participants.filter (·.external)).map fun p => s.externalComponent p.participantId

def componentOf (job : Job) (id : String) : Option ComponentSpec :=
  job.spec.components.find? fun c => c.componentId == id

/-- A plan of the job, and no other: the checks that abort the pass. -/
def checkPlan (db : Db) (job : Job) (acc : Planned) (plan : StoragePlan) : Except Abort Pool :=
  let component := componentOf job plan.componentId
  let externalLog :=
    plan.kind == "log_budget" && decide (plan.componentId ∈ externalComponents s job) &&
    plan.maxBytes == 1024 * 1024
  match Table.get (·.id) plan.poolId db.pools with
  | none => throw (.error "trusted admission storage plan differs from its job")
  | some pool =>
    if !validKind s plan.kind || (component.isNone && !externalLog) ||
        (s.dialect == .go && plan.externalId == "") then
      throw (.error "trusted admission storage plan differs from its job")
    else if s.dialect = .go ∧ (plan.kind, plan.externalId) ∈ acc.seen then
      throw (.error "trusted storage planner counted an owned copy twice")
    else if plan.kind = "execution_state" ∧ plan.coveredByAllocation = false then
      throw (.error "execution state must be backed by its immutable allocation")
    else if plan.coveredByAllocation && !(component.any fun c =>
        plan.kind == "execution_state" && plan.poolId == c.resources.poolId &&
          plan.maxBytes == c.resources.diskBytes && plan.details.coveredByAllocation) then
      throw (.error "covered state budget differs from its immutable allocation")
    else pure pool

/-- `verifyLifetimeBlob`: the one budget that covers every attempt of a job. Python checks the
component and the state of the row as well. -/
def verifyLifetimeBlob (job : Job) (plan : StoragePlan) (r : Resource) : Bool :=
  let owner := job.spec.components.find? fun c => c.role == .owner
  let checkpoint := owner.elim 0 (·.resources.diskBytes)
  let ownerId := owner.elim "" (·.componentId)
  let rounds := job.spec.targetRound
  let total := checkpoint * (rounds * (1 + job.spec.participants.length) + 1)
  let principal := checkpoint * (rounds + 1)
  let external := "hf2l-exchange-blobs://" ++ toString job.id
  decide (0 < total) && decide ((total : Int) ≤ maxInt64) &&
    decide ((principal : Int) ≤ maxInt64) &&
    r.details.quotaBytes == some total && r.details.principalQuotaBytes == some principal &&
    r.details.reservationMaxBytes == some total && r.details.retentionChargedBytes == some total &&
    r.details.retentionReservationBytes == some total && plan.maxBytes == total &&
    plan.componentId == ownerId && plan.externalId == external &&
    r.id == .owned job.id "exchange_blob_budget" external && r.sizeBytes == total &&
    r.details.specDigest == some job.spec.digest && r.details.poolId == some plan.poolId &&
    (s.dialect == .go || (r.componentId == ownerId && r.state != .deleted))

/-- A prepaid row still has the binding it was charged under. -/
def checkPrepaid (job : Job) (plan : StoragePlan) (r : Resource) : Except Abort Unit :=
  let lifetime := plan.kind == "exchange_blob_budget"
  if lifetime && !verifyLifetimeBlob s job plan r then
    throw (.error "lifetime Exchange allowance changed its immutable binding")
  else if r.details.poolId != some plan.poolId ||
      (!lifetime && r.details.attemptNumber.getD job.currentAttempt != job.currentAttempt) then
    throw (.error "storage admission resource changed its binding")
  else pure ()

/-- Nothing to charge for this plan: link the row. -/
def Planned.addPrepaid (acc : Planned) (plan : StoragePlan) (r : Resource) :
    Except Abort Planned := do
  let covered ← add s.dialect acc.coveredExisting
      (if plan.coveredByAllocation then plan.maxBytes else 0)
  return { acc with
    links := linkPlan acc.links plan r.id
    coveredExisting := covered
    seen := (plan.kind, plan.externalId) :: acc.seen }

/-- The plan is to be charged. Its pool gives the bytes unless the allocation has them. -/
def Planned.addEntry (acc : Planned) (plan : StoragePlan) (row : Option Resource) :
    Except Abort Planned :=
  let acc := { acc with
    storage := acc.storage ++ [⟨plan, row⟩]
    seen := (plan.kind, plan.externalId) :: acc.seen }
  if plan.coveredByAllocation then pure acc
  else do
    let disk ← add s.dialect (acc.request.amount plan.poolId .diskBytes) plan.maxBytes
    let request := acc.request.ensure plan.poolId
    let amounts : Amounts := fun k => if k = .diskBytes then disk else request.amount plan.poolId k
    return { acc with request := { request with amount := request.amount.set plan.poolId amounts } }

/-- The loop over the plans of a job. -/
def examine (db : Db) (job : Job) : List StoragePlan → Planned → Except Abort Examined
  | [], acc => pure (.planned acc)
  | plan :: plans, acc => do
    let pool ← checkPlan s db job acc plan
    if !pool.healthy || pool.quarantined then return .unavailable plan.poolId
    else
      match resourceOf db plan with
      | none => examine db job plans (← acc.addEntry s plan none)
      | some r =>
        if r.jobId ≠ job.id ∨ r.ownership ≠ ownership job plan then
          throw (.error "storage admission cannot adopt foreign resources")
        else if prepaid r then do
          checkPrepaid s job plan r
          examine db job plans (← acc.addPrepaid s plan r)
        else examine db job plans (← acc.addEntry s plan (some r))

/-! ### The verdict on a job -/

inductive Verdict where
  | waits (reason : QueueReason)
  | expired
  | blocked (short : Shortages)
  | admits (planned : Planned) (assigned : String → List String)

/-- `eligibility`: why some component has no pool that would take it. -/
def eligibility (pools : List Pool) : List ComponentSpec → Option QueueReason
  | [] => none
  | c :: components =>
    match Table.get (·.id) c.resources.poolId pools with
    | none => some (.dependencies none)
    | some p =>
      if p.quarantined then some (.nodeQuarantine none)
      else if !p.healthy then some (.dependencies none)
      else if c.resources.sandboxProfile ∉ p.sandboxProfiles then some .unavailableProfile
      else if 0 < c.resources.gpuCount ∧ !(c.resources.gpuProfile.any (· ∈ p.gpuProfiles)) then
        some .unavailableProfile
      else eligibility pools components

/-- The amount is above the limit. -/
def exceeds (limit : Option Nat) (n : Int) : Bool := limit.any fun l => decide ((l : Int) < n)

/-- The jobs of a project that have a live allocation. -/
def runningJobs (running : List (Id × String)) (projectId : String) : List Id :=
  ((running.filter fun e => e.2 == projectId).map (·.1)).dedup

/-- The quota of the job's project does not allow it. -/
def overQuota (p : Pass) (job : Job) (project : Project) (planned : Planned) :
    Except Abort Bool := do
  let totals ← planned.request.totals s.dialect
  if s.dialect = .go ∧ (project.retainedBytes : Int) < planned.coveredExisting then
    throw (.error "retained storage accounting is inconsistent")
  let disk ← add s.dialect (totals .diskBytes) (project.retainedBytes - planned.coveredExisting)
  let extra ← sum s.dialect (fun e => e.plan.maxBytes) planned.storage 0
  let retained ← add s.dialect project.retainedBytes extra
  if exceeds (retainedQuota project) retained then return true
  let after ← addAmounts s.dialect (p.projectUsed job.projectId)
    fun k => if k = .diskBytes then disk else totals k
  return dimensions.any (fun k => exceeds (quota project k) (after k)) ||
    (runningLimit project).any fun l => decide (l ≤ (runningJobs p.running job.projectId).length)

/-- The dimensions of one pool in which the request is above what is left. -/
def lacks (pools : List Pool) (used : Ledger) (r : Request) (poolId : String) :
    List (Dimension × Int) :=
  let capacity : Amounts := fun k => (Table.get (·.id) poolId pools).elim 0 (·.capacity k)
  dimensions.filterMap fun k =>
    let available := capacity k - used poolId k
    if r.amount poolId k > available then some (k, r.amount poolId k - available) else none

/-- What a pool lacks when the gang finds no devices. Python counts the devices. -/
def gpuLack (pools : List Pool) (occupied : List String) (r : Request) (poolId : String) : Int :=
  match s.dialect with
  | .go => 1
  | .python => max 1 (r.amount poolId .gpuCount - (freeGpus pools occupied poolId).length)

/-- The shortages of a request. -/
def shortages (p : Pass) (r : Request) (noGpus : Bool) : Shortages :=
  r.pools.filterMap fun poolId =>
    let lacking := lacks p.db.pools p.used r poolId
    let lacking :=
      if noGpus && decide (0 < r.amount poolId .gpuCount) then
        lacking.filter (fun l => l.1 != .gpuCount) ++
          [(.gpuCount, gpuLack s p.db.pools p.occupied r poolId)]
      else lacking
    if lacking.isEmpty then none else some (poolId, lacking)

/-- `MaxBackfills`. -/
def maxBackfills : Nat := 3

/-- The `backfill_count` of a job. -/
def backfills (db : Db) (jobId : Id) : Nat :=
  (Table.get (·.id) jobId db.jobs).elim 0 (·.backfillCount)

/-- An older job that has been overtaken often enough lacks what the request would use. -/
def protectedBy (p : Pass) (r : Request) : Bool :=
  p.blocked.any fun older => decide (maxBackfills ≤ backfills p.db older.1) && overlaps r older.2

/-- The verdict, once the plans of the job are known. -/
def judge (p : Pass) (job : Job) (project : Project) (planned : Planned) :
    Except Abort Verdict := do
  if ← overQuota s p job project planned then return .waits .quota
  else
    let assigned := assignGPUs p.db.pools p.occupied planned.request
    let short := shortages s p planned.request assigned.isNone
    if !short.isEmpty then return .blocked short
    else if protectedBy p planned.request then return .waits .olderRequest
    else return .admits planned (assigned.getD fun _ => [])

/-- The plans of a job, and the verdict on them. -/
def appraise (p : Pass) (job : Job) (project : Project) : Except Abort Verdict := do
  let plans ← s.planner p.db job
  if s.dialect = .go ∧ 10000 < plans.length then
    throw (.error "trusted storage plan exceeds its bound")
  if (externalComponents s job).any fun id => (componentOf job id).isSome then
    throw (.error "external execution identity collides with a declared component")
  match ← examine s p.db job plans { request := requestedByPool job.spec } with
  | .unavailable poolId => return .waits (.nodeQuarantine (some poolId))
  | .planned planned => judge s p job project planned

def evaluate (now : Time) (p : Pass) (job : Job) : Except Abort Verdict :=
  match Table.get (·.id) job.projectId p.db.projects with
  | none => throw (.error "queued job has no project")
  | some project =>
    if job.id ∈ p.active then pure (.waits (.nodeQuarantine none))
    else if job.deadlineAt.any (· ≤ now) then pure .expired
    else if job.nextAttemptAt.any (now < ·) then pure (.waits (.dependencies job.nextAttemptAt))
    else
      match eligibility p.db.pools job.spec.components with
      | some why => pure (.waits why)
      | none => appraise s p job project

/-! ### Admission -/

def updateJob (db : Db) (id : Id) (f : Job → Job) : Db :=
  { db with jobs := Table.modify (·.id) id f db.jobs }

def updateAttempt (db : Db) (id : Id) (f : Attempt → Attempt) : Db :=
  { db with attempts := Table.modify (·.id) id f db.attempts }

def updateAllocation (db : Db) (id : Id) (f : Allocation → Allocation) : Db :=
  { db with allocations := Table.modify (·.id) id f db.allocations }

/-- `tx.Insert(ctx, "jm_allocations", …)`. -/
def insertAllocation (db : Db) (a : Allocation) : Except Abort Db :=
  if db.allocations.any fun x => x.jobId == a.jobId && x.componentId == a.componentId &&
    x.releasedAt.isNone then
    throw (.conflict "uq_jm_live_component")
  else pure { db with allocations := db.allocations ++ [a] }

/-- `tx.Insert(ctx, "jm_gpu_allocations", …)` for the next device of an allocation. -/
def insertGpu (poolId : String) (allocationId : Id) (db : Db) (uuid : String) : Except Abort Db :=
  if db.gpus.any fun g => g.gpuUuid == uuid && g.releasedAt.isNone then
    throw (.conflict "uq_jm_live_gpu")
  else
    let g : GpuAllocation :=
      { id := Table.fresh (·.id) db.gpus, allocationId, poolId, gpuUuid := uuid }
    pure { db with gpus := db.gpus ++ [g] }

/-- `tx.Insert(ctx, "jm_provisioning_resources", …)`. -/
def insertResource (db : Db) (r : Resource) : Except Abort Db :=
  if db.resources.any fun x => x.id == r.id then throw (.conflict "jm_provisioning_resources_pkey")
  else if db.resources.any fun x => x.kind == r.kind && x.externalId == r.externalId then
    throw (.conflict "jm_provisioning_resources_kind_external_id")
  else pure { db with resources := db.resources ++ [r] }

/-- `tx.Insert(ctx, "jm_outbox", …)`. -/
def insertOutbox (db : Db) (item : OutboxItem) : Except Abort Db :=
  if db.outbox.any fun x => x.key == item.key then throw (.conflict "jm_outbox_idempotency_key")
  else pure { db with outbox := db.outbox ++ [item] }

/-- `outbox`. -/
def outbox (now : Time) (db : Db) (jobId : Id) (topic : Topic) (payload : Payload)
    (attemptId : Option Id) :
    Except Abort Db :=
  match Table.get (·.id) jobId db.jobs with
  | none => throw (.error "missing accounting row for current_attempt")
  | some job => insertOutbox db {
      id := Table.fresh (·.id) db.outbox
      jobId, attemptId
      attemptNumber := job.currentAttempt
      topic, payload
      key := .scheduled topic jobId attemptId job.currentAttempt job.epoch job.version
      createdAt := now }

/-- `reason`: the row changes only if the reason does. -/
def waitingJob (reason : QueueReason) (j : Job) : Job :=
  if j.queueReason = some reason then j
  else { j with queueReason := some reason, version := j.version + 1 }

def setReason (db : Db) (jobId : Id) (reason : QueueReason) : Db :=
  updateJob db jobId (waitingJob reason)

/-- The next `n` devices of a pool's share. -/
def takeGpus : Nat → List String → Except Abort (List String × List String)
  | 0, share => pure ([], share)
  | _ + 1, [] => throw .outOfRange
  | n + 1, uuid :: share => do
    let (taken, rest) ← takeGpus n share
    return (uuid :: taken, rest)

/-- A pass in the middle of an admission. -/
structure Admitting where
  pass : Pass
  assigned : String → List String
  created : List Id := []
  links : List Link := []

/-- The allocation of a component. -/
def newAllocation (db : Db) (jobId attemptId : Id) (epoch : Nat) (c : ComponentSpec) : Allocation :=
  { id := Table.fresh (·.id) db.allocations
    jobId, attemptId
    componentId := c.componentId
    poolId := c.resources.poolId
    cpuMillicores := c.resources.cpuMillicores
    memoryBytes := c.resources.memoryBytes
    diskBytes := c.resources.diskBytes
    gpuCount := c.resources.gpuCount
    epoch
    details := { nodeId := (Table.get (·.id) c.resources.poolId db.pools).elim "" (·.nodeId) } }

section
variable (job : Job) (attemptId : Id)

def admitComponent (epoch : Nat) (a : Admitting) (c : ComponentSpec) : Except Abort Admitting := do
  let r := c.resources
  let allocation := newAllocation a.pass.db job.id attemptId epoch c
  let db ← insertAllocation a.pass.db allocation
  let (taken, rest) ← takeGpus r.gpuCount (a.assigned r.poolId)
  let db ← taken.foldlM (insertGpu r.poolId allocation.id) db
  let used ← a.pass.used.add s.dialect r.poolId fun k => r.amount k
  let projectUsed ← a.pass.projectUsed.add s.dialect job.projectId fun k => r.amount k
  let pass := { a.pass with
    db := db
    used := used
    projectUsed := projectUsed
    occupied := taken ++ a.pass.occupied
    running := a.pass.running ++ [(job.id, job.projectId)] }
  return { a with
    pass := pass
    assigned := fun poolId => if poolId = r.poolId then rest else a.assigned poolId
    created := a.created ++ [allocation.id] }

/-- The row of a plan that has none yet. -/
def newResource (plan : StoragePlan) : Resource :=
  { id := .owned job.id plan.kind plan.externalId
    jobId := job.id
    attemptId := some attemptId
    componentId := plan.componentId
    kind := plan.kind
    externalId := some plan.externalId
    ownership := ownership job plan
    details := { plan.details with
      poolId := some plan.poolId
      componentId := some plan.componentId
      attemptNumber := some job.currentAttempt
      reservationMaxBytes := some plan.maxBytes }
    state := .planned
    retained := true }

/-- The row of an entry, inserted if it is new. -/
def entryRow (db : Db) (e : StorageEntry) : Except Abort (Resource × Db) :=
  match e.row with
  | none => do
    let db ← insertResource db (newResource job attemptId e.plan)
    return (newResource job attemptId e.plan, db)
  | some r => pure ({ r with attemptId := some attemptId }, db)

def admitEntry (a : Admitting) (e : StorageEntry) : Except Abort Admitting := do
  let (r, db) ← entryRow job attemptId a.pass.db e
  let db := updateResource db r.id fun x => { x with attemptId := some attemptId }
  match Table.get (·.id) e.plan.poolId db.pools with
  | none => throw (.error "trusted admission storage plan differs from its job")
  | some pool =>
    let db ← (reserveStorage s.dialect db r job.projectId e.plan.maxBytes pool).mapError
        .reservation
    let used ← a.pass.used.add s.dialect e.plan.poolId
      (single .diskBytes (if e.plan.coveredByAllocation then 0 else e.plan.maxBytes))
    let pass := { a.pass with db := db, used := used }
    return { a with pass := pass, links := linkPlan a.links e.plan r.id }

end

/-- A linked budget becomes the attempt's. -/
def bindLink (attemptId : Id) (db : Db) (l : Link) : Except Abort Db :=
  match Table.get (·.id) l.resourceId db.resources with
  | none => throw (.error "prepaid resource disappeared")
  | some r =>
    if r.attemptId ≠ none ∧ r.attemptId ≠ some attemptId then
      throw (.error "prepaid budget belongs to another attempt")
    else pure (updateResource db l.resourceId fun x => { x with attemptId := some attemptId })

/-- The link of a component under one key. -/
def linkOf (links : List Link) (componentId : String) (pointer : Pointer) : Option ResourceId :=
  (links.find? fun l => l.componentId == componentId && l.pointer == pointer).map (·.resourceId)

/-- The details of an allocation with its links. -/
def linkDetails (links : List Link) (a : Allocation) : Allocation :=
  { a with details := { a.details with
    collectionResourceId := linkOf links a.componentId .collection
    logResourceId := linkOf links a.componentId .log
    retainedResourceId := linkOf links a.componentId .retained } }

/-- A volume that is prepaid counts as retained bytes, not as disk of the project. -/
def linkAllocation (projectId : String) (links : List Link) (p : Pass) (id : Id) : Pass :=
  let db := updateAllocation p.db id (linkDetails links)
  let prepaidDisk : Int := match Table.get (·.id) id db.allocations with
    | none => 0
    | some a => if a.details.retainedResourceId.isSome then a.diskBytes else 0
  let amounts : Amounts := fun k =>
    if k = .diskBytes then p.projectUsed projectId k - prepaidDisk else p.projectUsed projectId k
  { p with db := db, projectUsed := p.projectUsed.set projectId amounts }

/-- The row of a blocked job that was overtaken. -/
def overtakenJob (j : Job) : Job :=
  { j with backfillCount := j.backfillCount + 1, version := j.version + 1 }

/-- Every blocked job that the admitted request overtakes is counted up. -/
def countBackfill (r : Request) (db : Db) (older : Id × Shortages) : Db :=
  if overlaps r older.2 then updateJob db older.1 overtakenJob else db

/-- The job row of an admission. -/
def admittedJob (now : Time) (j : Job) : Job :=
  { j with
    epoch := j.epoch + 1
    version := j.version + 1
    state := .provisioning
    phase := some .reserving
    queueReason := none
    backfillCount := 0
    deadlineAt := j.deadlineAt.or (some (now + j.spec.maxDurationSeconds)) }

/-- `UPDATE jm_attempts SET epoch = ?, …`, under the unique index on the epochs of a job. -/
def admitAttempt (db : Db) (attempt : Attempt) (epoch : Nat) : Except Abort Db :=
  if db.attempts.any fun x => x.jobId == attempt.jobId && x.epoch == epoch &&
    x.id != attempt.id then
    throw (.conflict "jm_attempts_job_id_epoch")
  else pure (updateAttempt db attempt.id fun x =>
    { x with epoch := epoch, state := .provisioning, terminationConfirmed := false })

/-- The current attempt of a job. -/
def attemptOf (db : Db) (jobId : Id) (number : Nat) : Option Attempt :=
  db.attempts.find? fun a => a.jobId == jobId && a.number == number

/-- Rows of the gang: job, attempt, allocations, devices and budgets. -/
def admitGang (now : Time) (p : Pass) (job : Job) (attempt : Attempt) (planned : Planned)
    (assigned : String → List String) : Except Abort Admitting := do
  let db := updateJob p.db job.id (admittedJob now)
  let db ← admitAttempt db attempt (job.epoch + 1)
  let a ← job.spec.components.foldlM (admitComponent s job attempt.id (job.epoch + 1))
    { pass := { p with db := db }, assigned, links := planned.links }
  let a ← planned.storage.foldlM (admitEntry s job attempt.id) a
  let db ← a.links.foldlM (bindLink attempt.id) a.pass.db
  let pass := a.created.foldl (linkAllocation job.projectId a.links) { a.pass with db := db }
  return { a with pass := pass }

def admitJob (now : Time) (p : Pass) (job : Job) (planned : Planned)
    (assigned : String → List String) :
    Except Abort Pass :=
  match attemptOf p.db job.id job.currentAttempt with
  | none => throw (.error "queued job is missing its durable attempt")
  | some attempt => do
    let a ← admitGang s now p job attempt planned assigned
    let epoch := job.epoch + 1
    let db ← outbox now a.pass.db job.id .dispatch { epoch := some epoch } (some attempt.id)
    let db := p.blocked.foldl (countBackfill planned.request) db
    return { a.pass with
      db := db
      admitted := p.admitted ++ [⟨job.id, attempt.id, epoch, a.created⟩] }

/-- The row of a job whose deadline has passed. -/
def expiredJob (j : Job) : Job :=
  { j with state := .cancelling, phase := some .deadlineExceeded, version := j.version + 1 }

/-- The deadline of a queued job has passed: it is closed without having run. -/
def expire (now : Time) (p : Pass) (job : Job) : Except Abort Pass := do
  let db := updateJob p.db job.id expiredJob
  let db ← outbox now db job.id .fenceStop { reason := some "deadline_exceeded" } none
  return { p with db := db }

def settle (now : Time) (p : Pass) (job : Job) : Verdict → Except Abort Pass
  | .waits reason => pure { p with db := setReason p.db job.id reason }
  | .expired => expire now p job
  | .blocked short => pure { p with
      db := setReason p.db job.id (.capacity short)
      blocked := p.blocked ++ [(job.id, short)] }
  | .admits planned assigned => admitJob s now p job planned assigned

/-- The loop over the queue. -/
def sweep (limit : Nat) (now : Time) : List Job → Pass → Except Abort Pass
  | [], p => pure p
  | job :: jobs, p =>
    if limit ≤ p.admitted.length then pure p
    else do
      let verdict ← evaluate s now p job
      let p ← settle s now p job verdict
      sweep limit now jobs p

/-- The order of submission. -/
def Job.before (a b : Job) : Bool :=
  if a.createdAt ≠ b.createdAt then a.createdAt < b.createdAt else a.id ≤ b.id

def queued (db : Db) : List Job :=
  (db.jobs.filter fun j => j.state == .queued).insertionSort fun a b => Job.before a b

/-- `Schedule`. -/
def schedule (limit : Nat) (now : Time) (db : Db) : Except Abort (List Admission × Db) := do
  if s.dialect = .go ∧ ¬ (1 ≤ limit ∧ limit ≤ 10000) then
    throw (.refused 422 "invalid_schedule_limit")
  let p ← start s.dialect db
  let p ← sweep s limit now (queued db) p
  return (p.admitted, p.db)

end

end Scheduler

end Hf2l.Jobs
