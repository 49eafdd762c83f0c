import Hf2l.Lib.Checked
import Hf2l.Lib.Table

/-!
# `Hf2l.Node.Ledger`: the database of a node

The tables of a node agent (`internal/executor/node.go`) and its transactions, each a function
from the ledger to an answer and the next ledger. A transaction that is refused changes nothing.

`ExecutionIdentity.Key` hashes the identity, so an identity is its own key here, and a row always
has the identity it is looked up under. A `Spec` is one that `ExecutionSpec.Validate` accepts;
what the ledger only compares is one text. Clocks count nanoseconds. They are finite: the source
also guards against clocks that are not. Rows are written by `Reserve` only, so the checks of
`scanNodeRecord` pass.
-/

set_option autoImplicit false

namespace Hf2l.Node

open Lib

/-! ### Rows -/

/-- The identity of an execution. -/
structure Identity where
  jobId : String
  attemptId : String
  componentId : String
  epoch : Nat
deriving DecidableEq, Repr

/-- What the fences and the shared charges are kept for. -/
def Identity.component (id : Identity) : String × String := (id.jobId, id.componentId)

/-- The `state` of an execution. -/
inductive ExecutionState where
  | reserving
  | reserved
  | starting
  | running
  | stopping
  | stopped
  | quarantined
  | released
deriving DecidableEq, Repr

/-- The resources of an execution. -/
structure ResourceLimits where
  cpuMillis : Nat
  memoryBytes : Nat
  diskBytes : Nat
deriving DecidableEq, Repr

/-- A specification that `ExecutionSpec.Validate` accepts. `content` is its canonical text without
the parts that are named here. -/
structure Spec where
  identity : Identity
  nodeId : String := ""
  poolId : String := ""
  resources : ResourceLimits
  lease : Nat
  deadline : Option Int := none
  content : String := ""
  resources_pos : 0 < resources.cpuMillis ∧ 0 < resources.memoryBytes ∧ 0 < resources.diskBytes
  lease_pos : 0 < lease
deriving DecidableEq

/-- A row of `executions`. -/
structure Execution where
  id : Identity
  spec : Spec
  state : ExecutionState := .reserving
  cpuMillis : Nat
  memoryBytes : Nat
  diskBytes : Nat
  leaseUntil : Int
  deadline : Option Int
  bootId : Nat
  stopped : Bool := false
  diskReleased : Bool := false
  retainedOutputBytes : Int := 0
  auxiliaryBytes : Nat := 0
  executorAbsent : Bool := false
deriving DecidableEq

/-- `state != 'RELEASED'`. -/
def Execution.active (x : Execution) : Bool := x.state != .released

/-- The last epoch of a component. -/
structure Fence where
  component : String × String
  epoch : Nat
deriving DecidableEq, Repr

/-- The shared charge of a component. -/
structure SharedAuxiliary where
  component : String × String
  reservedBytes : Nat
deriving DecidableEq, Repr

/-- The tables of the node. -/
structure Ledger where
  executions : List Execution := []
  fences : List Fence := []
  shared : List SharedAuxiliary := []

/-- The clocks of the node, and the boot they belong to. -/
structure Clocks where
  clock : Int := 0
  wallClock : Int := 0
  bootId : Nat := 0

/-- An error: its code, and whether it leaves the effect unknown. -/
structure Fault where
  code : String
  uncertain : Bool := false
deriving DecidableEq, Repr

/-- An effect that was not made. -/
def refused (code : String) : Fault := ⟨code, false⟩

/-- An effect that nobody knows of. -/
def uncertain : Fault := ⟨"execution_unknown", true⟩

/-! ### What transactions read -/

def updateExecution (l : Ledger) (id : Identity) (f : Execution → Execution) : Ledger :=
  { l with executions := Table.modify (·.id) id f l.executions }

def fenceOf (l : Ledger) (component : String × String) : Option Nat :=
  (Table.get (·.component) component l.fences).map (·.epoch)

/-- `row`. -/
def record (l : Ledger) (id : Identity) (allowStale : Bool) : Except Fault Execution :=
  match Table.get (·.id) id l.executions with
  | none => throw (refused "missing_reservation")
  | some x =>
    if !allowStale && fenceOf l id.component != some id.epoch then throw (refused "stale_epoch")
    else pure x

/-- The row for `collect`: a released execution may be stale. -/
def retainedRecord (l : Ledger) (id : Identity) : Except Fault Execution := do
  let x ← record l id true
  if x.state = .released then return x else record l id false

/-- `leaseValid`: boot, lease and deadline. -/
def leaseValid (c : Clocks) (x : Execution) : Bool :=
  x.bootId == c.bootId && decide (c.clock < x.leaseUntil) && x.deadline.all fun d =>
    decide (c.wallClock < d)

def storageHeadroomBytes : Nat := 4 * 1024 * 1024

def maxInt64 : Nat := 2 ^ 63 - 1

/-- What the files of an execution take, of the disk. -/
def executionBytes (x : Execution) : Nat :=
  (if x.diskReleased then 0 else x.diskBytes * 2 + storageHeadroomBytes) + x.auxiliaryBytes

/-- The amounts that `nodeStorageUsage` adds up. -/
def usedBytes (l : Ledger) : Int :=
  Table.total (fun x => (executionBytes x : Int)) l.executions +
    Table.total (fun s => (s.reservedBytes : Int)) l.shared

/-- The storage in use, if it is an `int64`. -/
def nodeStorageUsage (l : Ledger) : Except Fault Int :=
  if maxInt64 < usedBytes l then throw (refused "invalid_resources") else pure (usedBytes l)

/-- The storage of a new execution. -/
def executionStorageBudget (disk : Nat) : Except Fault Nat :=
  if disk = 0 ∨ (maxInt64 - storageHeadroomBytes) / 2 < disk then
    throw (refused "invalid_resources")
  else pure (disk * 2 + storageHeadroomBytes)

def usedCpu (l : Ledger) : Int :=
  Table.total (fun x => if x.active then (x.cpuMillis : Int) else 0) l.executions

def usedMemory (l : Ledger) : Int :=
  Table.total (fun x => if x.active then (x.memoryBytes : Int) else 0) l.executions

def sharedBytes (l : Ledger) (component : String × String) : Nat :=
  ((Table.get (·.component) component l.shared).map (·.reservedBytes)).getD 0

/-- The row for `PurgeWithAuxiliary`, and what its component shares. -/
def purgeRecord (l : Ledger) (id : Identity) : Except Fault (Execution × Nat) := do
  let x ← record l id true
  return (x, sharedBytes l id.component)

/-- Some execution of the component is not released. -/
def occupied (l : Ledger) (component : String × String) : Bool :=
  l.executions.any fun x => x.id.component == component && x.active

/-! ### Transactions -/

/-- `UPDATE executions SET state='QUARANTINED' WHERE execution_key=? AND state!='RELEASED'`. -/
def quarantine (id : Identity) (l : Ledger) : Ledger :=
  updateExecution l id fun x => if x.active then { x with state := .quarantined } else x

/-- What the first transaction of `Reserve` found. -/
inductive Opened where
  | settled (state : ExecutionState)
  | pending
deriving DecidableEq, Repr

/-- The row of a reservation. -/
def newExecution (c : Clocks) (spec : Spec) : Execution :=
  { id := spec.identity
    spec := spec
    cpuMillis := spec.resources.cpuMillis
    memoryBytes := spec.resources.memoryBytes
    diskBytes := spec.resources.diskBytes
    leaseUntil := c.clock + spec.lease
    deadline := spec.deadline
    bootId := c.bootId }

/-- The part of `Reserve` that charges a new execution. -/
def charge (capacity : ResourceLimits) (c : Clocks) (spec : Spec) (l : Ledger) :
    Except Fault Ledger := do
  let id := spec.identity
  if (fenceOf l id.component).any fun fence => decide (id.epoch ≤ fence) then
    throw (refused "stale_epoch")
  if occupied l id.component then throw (refused "node_quarantined")
  let used ← nodeStorageUsage l
  let budget ← executionStorageBudget spec.resources.diskBytes
  if capacity.cpuMillis - usedCpu l < spec.resources.cpuMillis ∨
      capacity.memoryBytes - usedMemory l < spec.resources.memoryBytes ∨
      capacity.diskBytes - used < budget then
    throw (refused "capacity")
  return { l with
    fences := Table.upsert (·.component) ⟨id.component, id.epoch⟩ l.fences
    executions := l.executions ++ [newExecution c spec] }

/-- The first transaction of `Reserve`. -/
def reserveOpen (capacity : ResourceLimits) (c : Clocks) (spec : Spec) (l : Ledger) :
    Except Fault (Opened × Ledger) :=
  match record l spec.identity false with
  | .ok prior =>
    if prior.spec ≠ spec then throw (refused "reservation_conflict")
    else if prior.state = .quarantined then throw (refused "node_quarantined")
    else if prior.state ≠ .reserving then pure (.settled prior.state, l)
    else if !leaseValid c prior then throw (refused "lease_expired")
    else pure (.pending, l)
  | .error e => do
    if e.code ≠ "missing_reservation" then throw e
    let l ← charge capacity c spec l
    return (.pending, l)

section
variable (c : Clocks) (id : Identity)

/-- The second transaction of `Reserve`. -/
def reserveClose (l : Ledger) : Except Fault Ledger := do
  let x ← record l id false
  if x.state ≠ .reserving ∨ leaseValid c x = false then throw (refused "lease_expired")
  return updateExecution l id fun x => { x with state := .reserved }

/-- The transaction of `RenewLease`. -/
def renew (nanoseconds : Nat) (l : Ledger) : Except Fault Ledger := do
  let x ← record l id false
  if x.state = .quarantined ∨ x.state = .stopped ∨ x.state = .stopping ∨ x.state = .released ∨
      leaseValid c x = false then
    throw (refused "lease_expired")
  return updateExecution l id fun x => { x with leaseUntil := c.clock + nanoseconds }

/-- The first transaction of `Start`. -/
def startOpen (l : Ledger) : Except Fault Ledger := do
  let x ← record l id false
  if leaseValid c x = false then throw (refused "lease_expired")
  if x.state ≠ .reserved ∧ x.state ≠ .running ∧ x.state ≠ .starting then
    throw (refused "invalid_execution_state")
  return updateExecution l id fun x => { x with state := .starting }

/-- The closing transaction of `Start`: was the lease valid? -/
def startClose (state : ExecutionState) (l : Ledger) : Except Fault (Bool × Ledger) := do
  let x ← record l id false
  return (leaseValid c x, updateExecution l id fun x => { x with state := state })

end

section
variable (id : Identity)

/-- A stop is under way. -/
def setStopping (l : Ledger) : Ledger :=
  updateExecution l id fun x => { x with state := .stopping }

/-- A stop was confirmed. -/
def setStopped (absent : Bool) (l : Ledger) : Ledger :=
  updateExecution l id fun x =>
    { x with state := .stopped, stopped := true, executorAbsent := absent }

/-- The output was collected. -/
def setRetained (bytes : Int) (l : Ledger) : Ledger :=
  updateExecution l id fun x => { x with retainedOutputBytes := bytes }

/-- The execution gives up its resources. -/
def setReleased (l : Ledger) : Ledger :=
  updateExecution l id fun x => { x with state := .released, stopped := true }

/-- The closing transaction of `PurgeWithAuxiliary`. -/
def setPurged (auxiliaryDeleted : Bool) (l : Ledger) : Ledger :=
  let l := updateExecution l id fun x => { x with diskReleased := true, auxiliaryBytes := 0 }
  if auxiliaryDeleted then
    { l with shared :=
        Table.modify (·.component) id.component (fun s => { s with reservedBytes := 0 }) l.shared }
  else l

/-- `ComponentPurgeAllowed`. -/
def componentPurgeAllowed (l : Ledger) : Except Fault Bool := do
  let _ ← record l id true
  return !occupied l id.component

end

/-- `chargeAuxiliary`. -/
def chargeAuxiliary (capacity : ResourceLimits) (id : Identity) (total : Nat) (shared : Bool)
    (l : Ledger) :
    Except Fault Ledger := do
  let x ← record l id false
  if x.state = .released ∨ x.state = .stopped ∨ x.state = .quarantined ∨ x.diskReleased = true then
    throw (refused "invalid_execution_state")
  let previous := if shared then sharedBytes l id.component else x.auxiliaryBytes
  if total ≤ previous then return l
  let used ← nodeStorageUsage l
  if capacity.diskBytes - used < (total : Int) - previous then throw (refused "capacity")
  if shared then
    return { l with shared := Table.upsert (·.component) ⟨id.component, total⟩ l.shared }
  else
    return updateExecution l id fun x => { x with auxiliaryBytes := total }

/-- The transaction of the watchdog: is the execution claimed? -/
def watchdogClaim (c : Clocks) (id : Identity) (l : Ledger) : Except Fault (Bool × Ledger) := do
  let x ← record l id false
  if x.state = .released ∨ x.state = .stopped ∨ leaseValid c x = true then return (false, l)
  else return (true, setStopping id l)

/-- The rows that a tick of the watchdog looks at. -/
def watched (l : Ledger) : List Execution :=
  l.executions.filter fun x => decide (x.state ≠ .released ∧ x.state ≠ .stopped)

end Hf2l.Node
