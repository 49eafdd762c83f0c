import Hf2l.Lib.Process
import Hf2l.Node.Ledger

/-!
# `Hf2l.Node.Agent`: the operations of a node agent

The methods of `NodeAgent` as programs. A program calls the ledger (each transaction is one call),
the backend (`LinuxExecutor`), and the guards that keep the operations on one execution apart.
Any call may fail.

A guard is a lock file. `withOperation` and `withComponent` hold one around a part of a method,
and release it whatever the part does. A method that is called under
`WithComponentGuardContext` finds the guard of its component held already; it runs as if it had
taken the guard when its caller did.
-/

set_option autoImplicit false

namespace Hf2l.Node

open Lib Lib.Process

/-! ### Calls -/

/-- A mutex of the agent. -/
inductive Guard where
  | execution (id : Identity)
  | component (component : String × String)
deriving DecidableEq, Repr

/-- The states of a record of `LinuxExecutor`. -/
inductive BackendState where
  | reserved
  | preparing
  | starting
  | running
  | stopped
  | released
deriving DecidableEq, Repr

/-- The states that `LinuxExecutor.Start` reports. It looks at the container of a record that is
`STARTING` or `RUNNING`, and that gives `RUNNING` or `STOPPED`; if the container is gone it gives
the record's own state. -/
inductive Started where
  | starting
  | running
  | stopped
deriving DecidableEq, Repr

def Started.state : Started → ExecutionState
  | .starting => .starting
  | .running => .running
  | .stopped => .stopped

/-- What the methods read of a `RuntimeObservation`. -/
structure Observation where
  state : BackendState
  terminationConfirmed : Bool
deriving DecidableEq, Repr

/-- What a backend answers to `Reserve`. -/
structure BackendReservation where
  identity : Identity
  acknowledged : Bool
  nodeId : String
deriving DecidableEq, Repr

/-- The calls that a request makes. -/
inductive Op where
  -- guards
  | lock (guard : Guard)
  | unlock (guard : Guard)
  -- the ledger
  | wallClock
  | valid (x : Execution)
  | record (id : Identity) (allowStale : Bool)
  | retainedRecord (id : Identity)
  | purgeRecord (id : Identity)
  | watched
  | componentPurgeAllowed (id : Identity)
  | reserveOpen (spec : Spec)
  | reserveClose (id : Identity)
  | renew (id : Identity) (nanoseconds : Nat)
  | startOpen (id : Identity)
  | startClose (id : Identity) (state : Started)
  | setStopping (id : Identity)
  | setStopped (id : Identity) (absent : Bool)
  | setRetained (id : Identity) (bytes : Int)
  | setReleased (id : Identity)
  | setPurged (id : Identity) (auxiliaryDeleted : Bool)
  | chargeAuxiliary (id : Identity) (total : Nat) (shared : Bool)
  | watchdogClaim (id : Identity)
  | quarantine (id : Identity)
  -- the backend
  | qualifyHealth
  | backendReserve (spec : Spec)
  | backendStart (id : Identity)
  | backendInspect (id : Identity)
  | backendStop (id : Identity)
  | confirmAbsent (id : Identity)
  | backendCollect (id : Identity)
  | backendRelease (id : Identity)
  | backendPurge (id : Identity)

/-- What a call answers. -/
@[reducible] def Ans : Op → Type
  | .lock _ => Except Fault Unit
  | .unlock _ => Unit
  | .wallClock => Int
  | .valid _ => Bool
  | .record _ _ | .retainedRecord _ => Except Fault Execution
  | .purgeRecord _ => Except Fault (Execution × Nat)
  | .watched => Except Fault (List Execution)
  | .componentPurgeAllowed _ => Except Fault Bool
  | .reserveOpen _ => Except Fault Opened
  | .startClose _ _ | .watchdogClaim _ => Except Fault Bool
  | .backendReserve _ => Except Fault BackendReservation
  | .backendStart _ => Except Fault Started
  | .backendInspect _ | .backendStop _ => Except Fault Observation
  | .confirmAbsent _ => Except Fault Bool
  | .backendCollect _ => Except Fault (List Int)
  | .backendRelease _ | .backendPurge _ => Except Fault Bool
  | .reserveClose _ | .renew _ _ | .startOpen _ | .setStopping _ | .setStopped _ _
    | .setRetained _ _
  | .setReleased _ | .setPurged _ _ | .chargeAuxiliary _ _ _ | .quarantine _ | .qualifyHealth =>
    Except Fault Unit

/-- A method, or a part of one. -/
abbrev Routine (α : Type) := Task Op Ans Unit Fault α

/-- What surrounds the methods of an agent. -/
structure Agent where
  nodeId : String
  poolId : String
  capacity : ResourceLimits

/-! ### Parts -/

/-- `guard`, and what it surrounds. -/
def guarded {α : Type} (g : Guard) (body : Routine α) : Routine α := do
  let taken ← Task.call (Op.lock g)
  Task.ofExcept taken
  let r ← Task.outcome body
  Task.call (Op.unlock g)
  Task.ofExcept r

def withOperation {α : Type} (id : Identity) (body : Routine α) : Routine α :=
  guarded (.execution id) body

def withComponent {α : Type} (id : Identity) (body : Routine α) : Routine α :=
  guarded (.component id.component) body

/-- `quarantine`: the row is set aside and the cause is raised. -/
def setAside {α : Type} (id : Identity) (cause : Fault) : Routine α := do
  let r ← Task.call (Op.quarantine id)
  match r with
  | .ok () => Task.raise cause
  | .error _ => Task.raise uncertain

/-- `inspect`. -/
def inspect (id : Identity) : Routine (Bool × Option BackendState) := do
  let row ← Task.call (Op.record id false)
  let x ← Task.ofExcept row
  if x.executorAbsent then pure (true, none)
  else
    let r ← Task.call (Op.backendInspect id)
    match r with
    | .ok observed => pure (observed.terminationConfirmed, some observed.state)
    | .error e =>
      if e.code = "missing_reservation" ∧ x.state = .reserving then pure (false, none)
      else if e.uncertain then setAside id e
      else Task.raise e

/-- The end of `stop`: the backend has confirmed the termination. -/
def settle (id : Identity) (absent : Bool) : Routine Unit := do
  let r ← Task.call (Op.setStopped id absent)
  match r with
  | .ok () => pure ()
  | .error _ => setAside id uncertain

/-- `stop`. -/
def stop (id : Identity) : Routine Unit := do
  let row ← Task.call (Op.record id false)
  let x ← Task.ofExcept row
  if x.state = .released ∨ x.executorAbsent = true then
    let _ ← inspect id
    pure ()
  else
    let marked ← Task.call (Op.setStopping id)
    Task.ofExcept marked
    let r ← Task.call (Op.backendStop id)
    match r with
    | .ok observed =>
      if observed.terminationConfirmed then settle id false else setAside id uncertain
    | .error e =>
      if e.code = "missing_reservation" then
        let proof ← Task.call (Op.confirmAbsent id)
        match proof with
        | .ok true => settle id true
        | _ => setAside id e
      else setAside id e

/-- `collect`. -/
def collect (id : Identity) : Routine Unit := do
  let row ← Task.call (Op.retainedRecord id)
  let x ← Task.ofExcept row
  if x.diskReleased || x.executorAbsent then pure ()
  else
    let ended ← (if x.stopped then pure true else do
      let (ended, _) ← inspect id
      pure ended)
    if ended = false then Task.raise (refused "runtime_active")
    else
      let r ← Task.call (Op.backendCollect id)
      let sizes ← Task.ofExcept r
      if sizes.any (· < 0) || decide (maxInt64 < sizes.sum) ||
        decide (maxInt64 - storageHeadroomBytes < x.diskBytes) ||
          decide ((x.diskBytes : Int) + storageHeadroomBytes < sizes.sum) then
        Task.raise (refused "retention_capacity")
      else
        let saved ← Task.call (Op.setRetained id sizes.sum)
        Task.ofExcept saved

/-! ### Methods -/

/-- What `Reserve` does under its guards. -/
def reserveBody (a : Agent) (spec : Spec) : Routine Unit := do
  let health ← Task.call Op.qualifyHealth
  Task.ofExcept health
  let r ← Task.call (Op.reserveOpen spec)
  let opened ← Task.ofExcept r
  match opened with
  | .settled _ => pure ()
  | .pending =>
    -- The charge is durable before the backend acts.
    let r ← Task.call (Op.backendReserve spec)
    match r with
    | .error e => setAside spec.identity e
    | .ok reservation =>
      if reservation.acknowledged = false ∨ reservation.identity ≠ spec.identity ∨
          (reservation.nodeId ≠ "" ∧ reservation.nodeId ≠ a.nodeId) then
        setAside spec.identity uncertain
      else
        let closed ← Task.call (Op.reserveClose spec.identity)
        match closed with
        | .error e => setAside spec.identity e
        | .ok () => pure ()

/-- `Reserve`. -/
def reserve (a : Agent) (spec : Spec) : Routine Unit := do
  if spec.nodeId ≠ "" ∧ spec.nodeId ≠ a.nodeId then Task.raise (refused "node_mismatch")
  else if spec.poolId ≠ "" ∧ spec.poolId ≠ a.poolId then Task.raise (refused "pool_mismatch")
  else
    let wall ← Task.call Op.wallClock
    if spec.deadline.any fun d => decide (d ≤ wall) then Task.raise (refused "job_deadline_expired")
    else withComponent spec.identity (withOperation spec.identity (reserveBody a spec))

section
variable (id : Identity)

/-- `RenewLease`. -/
def renewLease (nanoseconds : Nat) : Routine Unit := do
  if nanoseconds = 0 ∨ 300 * 10 ^ 9 < nanoseconds then Task.raise (refused "invalid_lease")
  else
    let r ← Task.call (Op.renew id nanoseconds)
    Task.ofExcept r

/-- What `Start` does under its guard. -/
def startBody : Routine Unit := do
  let r ← Task.call (Op.startOpen id)
  Task.ofExcept r
  let r ← Task.call (Op.backendStart id)
  match r with
  | .error e => setAside id e
  | .ok state =>
    let r ← Task.call (Op.startClose id state)
    match r with
    | .error _ => setAside id uncertain
    | .ok valid =>
      if valid then pure ()
      else
        let r ← Task.outcome (stop id)
        match r with
        | .error e => setAside id e
        | .ok () => Task.raise (refused "lease_expired")

/-- `Start`. -/
def start : Routine Unit := withOperation id (startBody id)

def releaseBody : Routine Unit := do
  let row ← Task.call (Op.record id false)
  let x ← Task.ofExcept row
  if x.state = .released then pure ()
  else
    let (ended, state) ← inspect id
    if ended = false then Task.raise uncertain
    else
      if state = some .reserved ∨ state = some .preparing then pure () else collect id
      if x.executorAbsent = false then
        let r ← Task.call (Op.backendRelease id)
        let released ← Task.ofExcept r
        if released = false then Task.raise uncertain else pure ()
      let r ← Task.call (Op.setReleased id)
      match r with
      | .ok () => pure ()
      | .error _ => Task.raise uncertain

/-- `Release`. -/
def release : Routine Unit := withOperation id (releaseBody id)

/-- `PurgeWithAuxiliary` under its guards. -/
def purgeBody (auxiliaryDeleted : Bool) : Routine Unit := do
  let row ← Task.call (Op.purgeRecord id)
  let (x, shared) ← Task.ofExcept row
  if x.state ≠ .released then Task.raise (refused "runtime_active")
  else if x.diskReleased = true ∧ shared = 0 then pure ()
  else if (0 < x.auxiliaryBytes ∨ 0 < shared) ∧ auxiliaryDeleted = false then
    Task.raise (refused "auxiliary_storage_retained")
  else
    if auxiliaryDeleted then
      let r ← Task.call (Op.componentPurgeAllowed id)
      let allowed ← Task.ofExcept r
      if allowed = false then Task.raise (refused "runtime_active") else pure ()
    if x.executorAbsent = false then
      let r ← Task.call (Op.backendPurge id)
      let deleted ← Task.ofExcept r
      if deleted = false then Task.raise uncertain else pure ()
    let r ← Task.call (Op.setPurged id auxiliaryDeleted)
    match r with
    | .ok () => pure ()
    | .error _ => Task.raise uncertain

/-- `PurgeWithAuxiliary`. -/
def purge (auxiliaryDeleted : Bool) : Routine Unit :=
  withComponent id (withOperation id (purgeBody id auxiliaryDeleted))

def chargeBytes (total : Nat) (shared : Bool) : Routine Unit := do
  let r ← Task.call (Op.chargeAuxiliary id total shared)
  Task.ofExcept r

end

/-- One row of a tick of the watchdog. An error sets the row aside, without the guard. -/
def watchRow (x : Execution) : Routine Unit := do
  let valid ← Task.call (Op.valid x)
  if valid then pure ()
  else
    let r ← Task.outcome (withOperation x.id (do
      let r ← Task.call (Op.watchdogClaim x.id)
      let claimed ← Task.ofExcept r
      if claimed then stop x.id else pure ()))
    match r with
    | .ok () => pure ()
    | .error _ =>
      let _ ← Task.call (Op.quarantine x.id)
      pure ()

def watchRows : List Execution → Routine Unit
  | [] => pure ()
  | x :: rest => do
    watchRow x
    watchRows rest

/-- `WatchdogOnce`. -/
def watchdogOnce : Routine Unit := do
  let r ← Task.call Op.watched
  let rows ← Task.ofExcept r
  watchRows rows

/-! ### Requests -/

/-- The requests to an agent. -/
inductive Request where
  | reserve (spec : Spec)
  | start (id : Identity)
  | stop (id : Identity)
  | inspect (id : Identity)
  | renewLease (id : Identity) (nanoseconds : Nat)
  | collect (id : Identity)
  | release (id : Identity)
  | purge (id : Identity) (auxiliaryDeleted : Bool)
  | chargeAuxiliary (id : Identity) (total : Nat) (shared : Bool)
  | watchdog

/-- The calls of a request. -/
def Request.routine (a : Agent) : Request → Routine Unit
  | .reserve spec => Node.reserve a spec
  | .start id => Node.start id
  | .stop id => withOperation id (Node.stop id)
  | .inspect id => do
    let _ ← Node.inspect id
    pure ()
  | .renewLease id nanoseconds => Node.renewLease id nanoseconds
  | .collect id => withOperation id (Node.collect id)
  | .release id => Node.release id
  | .purge id auxiliaryDeleted => Node.purge id auxiliaryDeleted
  | .chargeAuxiliary id total shared => chargeBytes id total shared
  | .watchdog => watchdogOnce

end Hf2l.Node
