import Hf2l.Lib.Run
import Hf2l.Listener.Client
import Hf2l.Listener.Owner

/-!
# `Hf2l.Listener.Runs`: a listener and what surrounds it

The system of one state directory. A process opens the listener, which needs the lock, polls,
and may die at any call; then another one opens it. An action `reply` lets the pending call
happen and answers it, so that a process that dies at a call has made it (`reply`, `crash`) or
not (`crash`).

`log` is not in the source. It lists the remote publications, each with the completed round
that is in the file at that time, and the operator's permissions to publish again.
-/

set_option autoImplicit false

namespace Hf2l.Listener

open Lib Lib.Process Lib.Json

/-- What the history records. -/
inductive Event where
  | publish (base : String) (round : Nat) (completed : Int)
  | retry (revision : String)
deriving DecidableEq, Repr

/-- The state directory, and the history. -/
structure World where
  disk : Option Saved := none
  jobDirs : List String := []
  log : List Event := []

/-- The completed round in the file. -/
def World.completed (w : World) : Int := (w.disk.map (·.completedRound)).getD (-1)

/-- What a call does. -/
def effect : (op : Op) → Ans op → World → World
  | .save s, _, w => { w with disk := some s }
  | .jobDir revision, _, w => { w with jobDirs := w.jobDirs ++ [revision] }
  | .publishSubmission base round, _, w | .publishAggregate base round, _, w =>
    { w with log := w.log ++ [.publish base round w.completed] }
  | _, _, w => w

/-- The two listeners. -/
inductive Kind where
  | client (c : ClientConfig)
  | owner (c : OwnerConfig)

/-- The role and the identity of a listener. -/
def Kind.config : Kind → Config
  | .client c => ⟨clientRole, c.identity, c.plain⟩
  | .owner c => ⟨ownerRole, c.identity, c.plain⟩

/-- `poll_once`. -/
def Kind.poll : Kind → Method Outcome
  | .client c => clientPoll c
  | .owner c => ownerPoll c

/-- `resolve_uncertain`. -/
def Kind.resolveUncertain : Kind → Recovery → Method Unit
  | .client _ => clientResolveUncertain
  | .owner _ => ownerResolveUncertain

/-- A process that has the lock: it waits with what it has in its memory, or it is in a method. -/
inductive Process where
  | idle (memory : Saved)
  | running (program : Prog Op Ans (Except Raised Unit × Saved))

/-- A listener: its directory and its process. -/
structure State where
  world : World := {}
  process : Option Process := none

/-- What happens next to a listener. -/
inductive Action where
  | enter
  | poll
  | resolve (recovery : Recovery)
  | reply (answer : (op : Op) → Ans op)
  | crash

/-- The job that an operator lets publish again. -/
def retried (recovery : Recovery) (s : Saved) : List Event :=
  match recovery, activeJob s with
  | .retry, some job => if job.status.isUncertain then [.retry job.revision] else []
  | _, _ => []

def start {α : Type} (x : Method α) (m : Saved) : Process := .running ((do let _ ← x; pure ()) m)

/-- The listener after an action. -/
def step (l : Kind) (s : State) : Action → State
  | .enter =>
    match s.process with
    | some _ => s
    | none =>
      match s.world.disk with
      | some d =>
        match validateState l.config d.toJson with
        | .ok _ => { s with process := some (start recover d) }
        | .error _ => s
      | none =>
        -- Artifacts without a state are not touched.
        if s.world.jobDirs.isEmpty then
          { s with process := some (start (save >>= fun _ => recover)
            { identity := l.config.identity }) }
        else s
  | .poll =>
    match s.process with
    | some (.idle m) => { s with process := some (start l.poll m) }
    | _ => s
  | .resolve recovery =>
    match s.process with
    | some (.idle m) =>
      { world := { s.world with log := s.world.log ++ retried recovery m }
        process := some (start (l.resolveUncertain recovery) m) }
    | _ => s
  | .reply answer =>
    match s.process with
    | some (.running (.ret (_, m))) => { s with process := some (.idle m) }
    | some (.running (.call op next)) =>
      ⟨effect op (answer op) s.world, some (.running (next (answer op)))⟩
    | _ => s
  | .crash => { s with process := none }

end Hf2l.Listener
