import Hf2l.Lib.Run
import Hf2l.Node.Agent

/-!
# `Hf2l.Node.Runs`: a node with many requests under way

The system of one node: its ledger, its clocks, the guards that are held, and the requests under
way. A request takes one call at a time, so requests interleave in every order. The agent may die
between any two calls (`kill` ends one request and drops its guards; the ledger stays), and the
node may boot again: its requests and guards are gone, the boot has a new identity, and the
monotone clock starts anywhere.

Two histories are not in the source. `confirmed` holds the identities whose termination the
backend has confirmed, or has confirmed to have never been reserved, since they were last started.
`reports` lists the successes of `Start`, each with what the lease was at its closing transaction.
-/

set_option autoImplicit false

namespace Hf2l.Node

open Lib Lib.Process

/-- What the requests of a node share. -/
structure World where
  ledger : Ledger := {}
  clocks : Clocks := {}
  /-- The guards that are held, and by which request. -/
  held : List (Guard × Nat) := []
  confirmed : List Identity := []

/-! ### Calls -/

/-- What the backend has confirmed with its answer. -/
def confirms (id : Identity) (confirmed : Bool) (w : World) : World :=
  if confirmed then { w with confirmed := id :: w.confirmed } else w

/-- An error that is none of the agent's own: of the database, or a request that has ended. -/
def plainFault : Fault := ⟨"executor_refused", false⟩

/-- A transaction that answers nothing. -/
def write (w : World) (r : Except Fault Ledger) : Except Fault Unit × World :=
  match r with
  | .ok l => (.ok (), { w with ledger := l })
  | .error e => (.error e, w)

/-- A transaction. -/
def transact {α : Type} (w : World) (r : Except Fault (α × Ledger)) : Except Fault α × World :=
  match r with
  | .ok (a, l) => (.ok a, { w with ledger := l })
  | .error e => (.error e, w)

/-- A call that is let through. -/
def effect (a : Agent) (pid : Nat) : (op : Op) → Ans op → World → Ans op × World
  | .lock g, _, w => (.ok (), { w with held := (g, pid) :: w.held })
  | .unlock g, _, w => ((), { w with held := w.held.filter fun h => decide (h ≠ (g, pid)) })
  | .wallClock, _, w => (w.clocks.wallClock, w)
  | .valid x, _, w => (leaseValid w.clocks x, w)
  | .record id allowStale, _, w => (record w.ledger id allowStale, w)
  | .retainedRecord id, _, w => (retainedRecord w.ledger id, w)
  | .purgeRecord id, _, w => (purgeRecord w.ledger id, w)
  | .watched, _, w => (.ok (watched w.ledger), w)
  | .componentPurgeAllowed id, _, w => (componentPurgeAllowed id w.ledger, w)
  | .reserveOpen spec, _, w => transact w (reserveOpen a.capacity w.clocks spec w.ledger)
  | .reserveClose id, _, w => write w (reserveClose w.clocks id w.ledger)
  | .renew id nanoseconds, _, w => write w (renew w.clocks id nanoseconds w.ledger)
  | .startOpen id, _, w => write w (startOpen w.clocks id w.ledger)
  | .startClose id state, _, w => transact w (startClose w.clocks id state.state w.ledger)
  | .setStopping id, _, w => write w (.ok (setStopping id w.ledger))
  | .setStopped id absent, _, w => write w (.ok (setStopped id absent w.ledger))
  | .setRetained id bytes, _, w => write w (.ok (setRetained id bytes w.ledger))
  | .setReleased id, _, w => write w (.ok (setReleased id w.ledger))
  | .setPurged id auxiliaryDeleted, _, w => write w (.ok (setPurged id auxiliaryDeleted w.ledger))
  | .chargeAuxiliary id total shared, _, w =>
    write w (chargeAuxiliary a.capacity id total shared w.ledger)
  | .watchdogClaim id, _, w => transact w (watchdogClaim w.clocks id w.ledger)
  | .quarantine id, _, w => write w (.ok (quarantine id w.ledger))
  | .qualifyHealth, answer, w => (answer, w)
  | .backendReserve _, answer, w => (answer, w)
  | .backendStart id, answer, w =>
    (answer, { w with confirmed := w.confirmed.filter fun i => decide (i ≠ id) })
  | .backendInspect id, answer, w | .backendStop id, answer, w =>
    (answer, confirms id (answer.toOption.any (·.terminationConfirmed)) w)
  | .confirmAbsent id, answer, w => (answer, confirms id (answer.toOption.any fun b => b) w)
  | .backendCollect _, answer, w | .backendRelease _, answer, w | .backendPurge _, answer, w =>
    (answer, w)

/-- The answer of a transaction that failed. -/
def failure : (op : Op) → Option (Ans op)
  | .record _ _ | .retainedRecord _ | .purgeRecord _ | .watched | .componentPurgeAllowed _
    | .reserveOpen _
  | .reserveClose _ | .renew _ _ | .startOpen _ | .startClose _ _ | .setStopping _ | .setStopped _ _
  | .setRetained _ _ | .setReleased _ | .setPurged _ _ | .chargeAuxiliary _ _ _ | .watchdogClaim _
      | .quarantine _ =>
    some (.error plainFault)
  | _ => none

/-- What may go wrong with a call: it fails and has done nothing, or it has done all and fails. -/
inductive Trouble where
  | none
  | lost
  | unreported
deriving DecidableEq, Repr

/-- One call of a request, with what the backend answers and what goes wrong. A guard that another
request holds blocks it, until its context ends. -/
def perform (a : Agent) (pid : Nat) : (op : Op) → Ans op → Trouble → World → Option (Ans op × World)
  | .lock g, answer, trouble, w =>
    if trouble ≠ .none then some (.error plainFault, w)
    else if w.held.any fun h => decide (h.1 = g) then none
    else some (effect a pid (.lock g) answer w)
  | op, answer, trouble, w =>
    match trouble, failure op with
    | .lost, some e => some (e, w)
    | .unreported, some e => some (e, (effect a pid op answer w).2)
    | _, _ => some (effect a pid op answer w)

/-! ### The system -/

/-- A request under way. `closing` is what the lease was when `Start` closed. -/
structure Process where
  pid : Nat
  request : Request
  program : Prog Op Ans (Except Fault Unit × Unit)
  closing : Option Bool := none

/-- A node. -/
structure State where
  world : World := {}
  processes : List Process := []
  next : Nat := 0
  reports : List (Identity × Option Bool) := []

/-- What happens next on a node. -/
inductive Action where
  | call (request : Request)
  | proceed (pid : Nat) (answer : (op : Op) → Ans op) (trouble : Trouble)
  | tick (elapsed : Nat) (wallClock : Int)
  | kill (pid : Nat)
  | reboot (clock wallClock : Int)

/-- What the lease of an execution is. -/
def leaseNow (w : World) (id : Identity) : Bool :=
  (Table.get (·.id) id w.ledger.executions).any (leaseValid w.clocks)

/-- The lease at the closing transaction of `Start`. -/
def Process.observe (p : Process) (w : World) : Op → Option Bool
  | .startClose id _ => some (leaseNow w id)
  | _ => p.closing

/-- The request has ended. -/
def Process.report (p : Process) : Except Fault Unit → List (Identity × Option Bool)
  | .ok () =>
    match p.request with
    | .start id => [(id, p.closing)]
    | _ => []
  | .error _ => []

def dropGuards (pid : Nat) (w : World) : World :=
  { w with held := w.held.filter fun h => decide (h.2 ≠ pid) }

def State.drop (s : State) (pid : Nat) : List Process :=
  s.processes.filter fun p => decide (p.pid ≠ pid)

def State.replace (s : State) (p : Process) : List Process := Table.put (·.pid) p s.processes

/-- The node after an action. -/
def step (a : Agent) (s : State) : Action → State
  | .call request =>
    { s with
      processes := s.processes ++ [⟨s.next, request, request.routine a (), none⟩]
      next := s.next + 1 }
  | .proceed pid answer trouble =>
    match Table.get (·.pid) pid s.processes with
    | none => s
    | some p =>
      match p.program with
      | .ret (r, _) => { s with processes := s.drop pid, reports := s.reports ++ p.report r }
      | .call op next =>
        match perform a pid op (answer op) trouble s.world with
        | none => s
        | some (r, w) =>
          { s with
            world := w
            processes := s.replace { p with program := next r, closing := p.observe s.world op } }
  | .tick elapsed wallClock =>
    { s with world := { s.world with clocks := { s.world.clocks with
        clock := s.world.clocks.clock + elapsed, wallClock := wallClock } } }
  | .kill pid => { s with world := dropGuards pid s.world, processes := s.drop pid }
  | .reboot clock wallClock =>
    { s with
      world := { s.world with clocks := ⟨clock, wallClock, s.world.clocks.bootId + 1⟩, held := [] }
      processes := [] }

end Hf2l.Node
