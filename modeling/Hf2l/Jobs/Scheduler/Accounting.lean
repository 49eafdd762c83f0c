import Hf2l.Jobs.Store.Rows
import Hf2l.Lib.Checked
import Mathlib.Data.List.Sort

/-!
# `Hf2l.Jobs.Scheduler.Accounting`: what a pass counts

The sums of the scheduler (`internal/scheduler/scheduler.go`, `hf2l_jobs/scheduler.py`): the
amounts a job asks of each pool, the quota of a project, the bytes a pool has given away and
the charge of a retained resource. The two implementations share this model; `Dialect` says
where they differ. Go adds in `int64` and refuses to overflow, Python adds integers.

`reserveStorage` charges one resource to its project. It is the only writer of
`retained_bytes` in a pass.
-/

set_option autoImplicit false

namespace Hf2l.Jobs.Scheduler

open Lib

inductive Dialect where
  | go
  | python
deriving DecidableEq, Repr

/-- Why a transaction of the scheduler is rolled back. -/
inductive Abort where
  /-- An error that carries a text only. -/
  | error (message : String)
  /-- `domain.Err`. -/
  | refused (status : Nat) (code : String)
  /-- A unique index of the schema. -/
  | conflict (index : String)
  /-- The head of an empty slice. -/
  | outOfRange
  /-- What `ReserveStorage` returned to the pass. -/
  | reservation (cause : Abort)
deriving DecidableEq, Repr

/-- `math.MaxInt64`. -/
def maxInt64 : Int := 2 ^ 63 - 1

/-- `add`. -/
def add (d : Dialect) (a b : Int) : Except Abort Int :=
  if d = .go ∧ (a < 0 ∨ b < 0 ∨ a > maxInt64 - b) then throw (.error "resource accounting overflow")
  else pure (a + b)

/-- Add up a column. -/
def sum {ρ : Type} (d : Dialect) (column : ρ → Int) (rows : List ρ) (start : Int) :
    Except Abort Int :=
  rows.foldlM (fun total r => add d total (column r)) start

/-- `addTo` for every dimension. -/
def addAmounts (d : Dialect) (a b : Amounts) : Except Abort Amounts := do
  let cpu ← add d (a .cpuMillicores) (b .cpuMillicores)
  let memory ← add d (a .memoryBytes) (b .memoryBytes)
  let disk ← add d (a .diskBytes) (b .diskBytes)
  let gpu ← add d (a .gpuCount) (b .gpuCount)
  return fun
    | .cpuMillicores => cpu
    | .memoryBytes => memory
    | .diskBytes => disk
    | .gpuCount => gpu

def zero : Amounts := fun _ => 0

/-- An amount in one dimension. -/
def single (k : Dimension) (n : Int) : Amounts := fun k' => if k' = k then n else 0

/-- The amounts of several owners, by name. An absent entry is `zero`. -/
abbrev Ledger := String → Amounts

def Ledger.set (l : Ledger) (name : String) (a : Amounts) : Ledger :=
  fun other => if other = name then a else l other

/-- `addTo(ensure(m, id), …)` for every dimension. -/
def Ledger.add (d : Dialect) (l : Ledger) (name : String) (a : Amounts) : Except Abort Ledger := do
  let total ← addAmounts d (l name) a
  return l.set name total

/-! ### Requests -/

/-- What a job asks of each pool. `pools` are the keys of the map. -/
structure Request where
  pools : List String := []
  amount : Ledger := fun _ => zero

/-- `ensure(request, pool)`. -/
def Request.ensure (r : Request) (poolId : String) : Request :=
  if poolId ∈ r.pools then r else { r with pools := r.pools ++ [poolId] }

/-- `request[pool][key] += n` for every dimension. -/
def Request.plus (r : Request) (poolId : String) (a : Amounts) : Request :=
  let r := r.ensure poolId
  { r with amount := r.amount.set poolId (fun k => r.amount poolId k + a k) }

/-- `RequestedByPool`. The bounds of a valid specification keep these sums in `int64`. -/
def requestedByPool (spec : JobSpec) : Request :=
  spec.components.foldl (fun r c => r.plus c.resources.poolId fun k => c.resources.amount k) {}

/-- The request in all pools together. -/
def Request.totals (d : Dialect) (r : Request) : Except Abort Amounts :=
  r.pools.foldlM (fun total poolId => addAmounts d total (r.amount poolId)) zero

/-- The pools and dimensions in which a job finds too little. -/
abbrev Shortages := List (String × List (Dimension × Int))

/-- `overlaps`: the request uses a pool dimension that is short. -/
def overlaps (r : Request) (short : Shortages) : Bool :=
  short.any fun entry => entry.2.any fun lack => 0 < r.amount entry.1 lack.1

/-! ### Quotas -/

/-- The stricter of two limits. -/
def intersect : Option Nat → Option Nat → Option Nat
  | some a, some b => some (min a b)
  | some a, none => some a
  | none, b => b

/-- `Quota`: the explicit quota object, intersected with the scalar columns. -/
def quota (p : Project) : Dimension → Option Nat
  | .cpuMillicores => intersect p.quotas.cpuMillicores p.quotaCpuMillicores
  | .memoryBytes => intersect p.quotas.memoryBytes p.quotaMemoryBytes
  | .diskBytes => intersect p.quotas.diskBytes p.quotaDiskBytes
  | .gpuCount => intersect p.quotas.gpuCount p.quotaGpus

/-- `Quota(project)["max_running_jobs"]`. -/
def runningLimit (p : Project) : Option Nat := intersect p.quotas.maxRunningJobs p.maxActiveJobs

/-- `Quota(project)["retained_bytes"]`: no scalar column has it. -/
def retainedQuota (p : Project) : Option Nat := p.quotas.retainedBytes

/-- The limit that `ReserveStorage` applies to retained bytes. -/
def reserveLimit (p : Project) : Option Nat :=
  p.quotas.retainedBytes.or (p.quotas.diskBytes.or p.quotaDiskBytes)

/-! ### Bytes of a pool -/

/-- An allocation whose disk is given away: it is not released, or its volume is kept. -/
def holdsDisk (a : Allocation) : Bool :=
  a.releasedAt.isNone ||
    (a.state == .released && a.details.retainedDiskCharged && !a.details.storageDeleted)

/-- A retained resource that has bytes of its own. -/
def holdsBytes (r : Resource) : Bool :=
  r.retained && r.state != .deleted && r.kind != "execution_state"

/-- `PoolUsedBytes`. -/
def poolUsedBytes (d : Dialect) (db : Db) (poolId : String) (exclude : Option ResourceId) :
    Except Abort Int := do
  let volumes ← sum d (fun a => a.diskBytes)
    (db.allocations.filter fun a => a.poolId == poolId && holdsDisk a) 0
  sum d (fun r => r.sizeBytes)
    (db.resources.filter fun r =>
      holdsBytes r && some r.id != exclude && r.details.poolId == some poolId) volumes

/-- The key that `retention_charged_bytes` has in a comparison: Go reads an absent one as 0. -/
def charged (d : Dialect) (details : ResourceDetails) : Option Nat :=
  match d with
  | .go => some (details.retentionChargedBytes.getD 0)
  | .python => details.retentionChargedBytes

/-- The resource `r` is the prepaid volume of the allocation `a`. -/
def covers (d : Dialect) (a : Allocation) (r : Resource) : Bool :=
  r.jobId == a.jobId && r.attemptId == some a.attemptId && r.componentId == a.componentId &&
    r.kind == "execution_state" && r.sizeBytes == a.diskBytes &&
      r.details.poolId == some a.poolId &&
    r.details.coveredByAllocation && charged d r.details == some a.diskBytes &&
    !r.details.retentionChargeReleased

/-- `reservedResourceCovered`: the disk of the allocation is in the project's retained bytes. -/
def reservedResourceCovered (d : Dialect) (db : Db) (a : Allocation) : Bool :=
  match a.details.retainedResourceId with
  | none => false
  | some id =>
    match Table.get (·.id) id db.resources with
    | none => false
    | some r => covers d a r

/-! ### The charge of a resource -/

/-- `UPDATE jm_provisioning_resources … WHERE id = ?`. -/
def updateResource (db : Db) (id : ResourceId) (f : Resource → Resource) : Db :=
  { db with resources := Table.modify (·.id) id f db.resources }

/-- The project of a job. -/
def projectOf (db : Db) (jobId : Id) : Option String :=
  (Table.get (·.id) jobId db.jobs).map (·.projectId)

/-- `UPDATE jm_projects … WHERE id = ?`. -/
def updateProject (db : Db) (id : String) (f : Project → Project) : Db :=
  { db with projects := Table.modify (·.id) id f db.projects }

/-- The row of a resource once `maximum` bytes are charged for it. -/
def chargedResource (r : Resource) (maximum : Nat) : Resource :=
  { r with
    retained := true
    sizeBytes := maximum
    details := { r.details with
      retentionChargedBytes := some maximum
      retentionReservationBytes := some maximum
      retentionChargeSettled := some false
      retentionChargeReleased := false } }

/-- A charge that is already there: `ReserveStorage` checks it and changes nothing. -/
def checkCharge (d : Dialect) (details : ResourceDetails) (charge maximum : Nat) :
    Except Abort Unit :=
  if details.retentionChargeSettled.getD details.retentionReservationBytes.isNone then
    if charge > maximum then throw (.refused 409 "retained_resource_exceeds_reservation")
    else pure ()
  else
    match details.retentionReservationBytes, d with
    | none, .go => throw (.error "resource accounting returned a non-integral quantity")
    | reserved, _ =>
      if reserved = some maximum then pure ()
      else throw (.refused 409 "retained_resource_reservation_conflict")

/-- The part of `ReserveStorage` that asks the pool: volumes are asked of no pool twice. -/
def checkPool (d : Dialect) (db : Db) (r : Resource) (maximum : Nat) (pool : Pool) :
    Except Abort Unit := do
  if r.kind ≠ "execution_state" then
    let used ← poolUsedBytes d db pool.id (some r.id)
    let total ← add d used maximum
    if total > pool.diskBytes then throw (.refused 409 "retained_pool_storage_unavailable")

/-- The part of `ReserveStorage` that asks the project. -/
def checkProject (d : Dialect) (project : Project) (maximum : Nat) : Except Abort Unit := do
  let total ← add d project.retainedBytes maximum
  match reserveLimit project with
  | none => pure ()
  | some cap => if total > cap then throw (.refused 409 "retained_storage_quota_exceeded")

/-- `ReserveStorage`, for a pool that exists. -/
def reserveStorage (d : Dialect) (db : Db) (r : Resource) (projectId : String) (maximum : Nat)
    (pool : Pool) : Except Abort Db := do
  if r.state = .deleted ∨ r.deletedAt ≠ none then
    throw (.refused 409 "retained_resource_already_deleted")
  if r.details.poolId ≠ none ∧ r.details.poolId ≠ some pool.id then
    throw (.refused 409 "retained_resource_pool_context_required")
  if r.details.retentionChargeReleased then
    throw (.refused 409 "retained_resource_charge_conflict")
  match r.details.retentionChargedBytes with
  | some charge =>
    checkCharge d r.details charge maximum
    return db
  | none =>
    checkPool d db r maximum pool
    match Table.get (·.id) projectId db.projects with
    | none => throw (.error "missing accounting row for retained_bytes")
    | some project =>
      checkProject d project maximum
      let db := updateProject db projectId fun p =>
        { p with retainedBytes := p.retainedBytes + maximum, version := p.version + 1 }
      return updateResource db r.id fun _ => chargedResource r maximum

end Hf2l.Jobs.Scheduler
