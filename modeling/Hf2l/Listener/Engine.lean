import Hf2l.Lib.JsonValue
import Hf2l.Lib.Process
import Hf2l.Lib.Table

/-!
# `Hf2l.Listener.Engine`: a listener and its state file

`src/hf2l/listener/engine.py`. A listener does one job after the other, one for each revision
that its reference has had. It writes `state.json` before and after everything that can be
seen from outside. `Saved` is the document, which a listener also has in its memory, and
`toJson` is the file; `validateState` reads the file with the checks of the source.

A method of a listener is a `Task`: its calls are those of the store, of the training command,
of the runner and of the filesystem, and the environment answers each of them, or raises. The
callback `on_event` is left out, and so are the pauses of `run`, which only polls again.
-/

set_option autoImplicit false

namespace Hf2l.Listener

open Lib Lib.Process Lib.Json

/-! ### Jobs -/

/-- The `status` of a job. -/
inductive Status where
  | pending
  | downloading
  | training
  | ready
  | aggregating
  | publishing
  | uncertain
  | submitted
  | published
  | skipped
deriving DecidableEq, Repr

def Status.text : Status → String
  | .pending => "pending"
  | .downloading => "downloading"
  | .training => "training"
  | .ready => "ready"
  | .aggregating => "aggregating"
  | .publishing => "publishing"
  | .uncertain => "uncertain"
  | .submitted => "submitted"
  | .published => "published"
  | .skipped => "skipped"

/-- What a kind of listener binds: the class attributes. -/
structure Role where
  statuses : List Status
  terminal : List Status
  success : Status
  roundOptional : List Status
  /-- The owner checks its attempt numbers too. -/
  attempts : Bool

/-- `ClientListener`. -/
def clientRole : Role where
  statuses := [.pending, .downloading, .training, .ready, .publishing, .uncertain, .submitted,
    .skipped]
  terminal := [.submitted, .skipped]
  success := .submitted
  roundOptional := [.pending, .downloading]
  attempts := false

/-- `OwnerListener`. -/
def ownerRole : Role where
  statuses := [.pending, .aggregating, .publishing, .uncertain, .published, .skipped]
  terminal := [.published, .skipped]
  success := .published
  roundOptional := [.pending, .skipped]
  attempts := true

/-- `uncertain_statuses`. -/
def Status.isUncertain (s : Status) : Bool := s == .publishing || s == .uncertain

/-- A job of the state file. -/
structure Job where
  revision : String
  sourceRound : Option Nat
  status : Status
  /-- Jobs of the owner have one. -/
  attempt : Option Nat := none
  reason : Option String := none
  result : Option Value := none
  reconciled : Bool := false
  publicationIntent : Option Value := none

/-- `state.json`. -/
structure Saved where
  identity : Value
  completedRound : Int := -1
  active : Option String := none
  jobs : List Job := []

/-- A listener is opened with its identity. -/
structure Config where
  role : Role
  identity : Value
  plain : identity.Plain

/-! ### The file -/

def optional (key : String) : Option Value → List (String × Value)
  | none => []
  | some v => [(key, v)]

def Job.fields (j : Job) : List (String × Value) :=
  [("revision", .str j.revision),
      ("source_round", match j.sourceRound with | none => .null | some n => .int n),
      ("status", .str j.status.text)] ++
    optional "attempt" (j.attempt.map fun (n : Nat) => .int n) ++
      optional "reason" (j.reason.map .str) ++
    optional "result" j.result ++
      optional "reconciled" (if j.reconciled then some (.bool true) else none) ++
    optional "publication_intent" j.publicationIntent

def Job.toJson (j : Job) : Value := .obj j.fields

/-- The document that `_save` writes. -/
def Saved.toJson (s : Saved) : Value :=
  .obj [("schema_version", .int 1), ("identity", s.identity),
    ("completed_round", .int s.completedRound),
    ("active", match s.active with | none => .null | some a => .str a),
    ("jobs", .obj (s.jobs.map fun j => (j.revision, j.toJson)))]

/-- The round of a job: `None` if there is none. -/
def readRound (fields : List (String × Value)) : Except String (Option Nat) :=
  match fields.lookup "source_round" with
  | none => .ok none
  | some .null => .ok none
  | some (.int (.ofNat n)) => .ok (some n)
  | some _ => .error "Malformed listener round"

/-- The checks on one job. Its revision is noted if it is not done. -/
def validateJob (role : Role) (completed : Int) (nonterminal : List String)
    (entry : String × Value) :
    Except String (List String) := do
  match entry.2 with
  | .obj fields =>
    match fields.lookup "revision", fields.lookup "status" with
    | some (.str revision), some (.str status) =>
      if entry.1 = "" ∨ revision ≠ entry.1 ∨ status ∉ role.statuses.map (·.text) then
        throw "Malformed listener job"
      let round ← readRound fields
      if round.isNone ∧ status ∉ role.roundOptional.map (·.text) then
        throw "Listener job is missing its round"
      if status = role.success.text ∧
        round.any (fun (n : Nat) => decide (completed < (n : Int))) then
        throw "Listener completion record is inconsistent"
      return if status ∉ role.terminal.map (·.text) then nonterminal ++ [entry.1] else nonterminal
    | _, _ => throw "Malformed listener job"
  | _ => throw "Malformed listener job"

/-- The owner's own check. -/
def validateAttempt (entry : String × Value) : Bool :=
  match entry.2 with
  | .obj fields =>
    match fields.lookup "attempt" with
    | none => true
    | some (.int n) => decide (0 ≤ n)
    | some _ => false
  | _ => false

/-- The refusal of a document of another listener. -/
def foreignState : String :=
  "Listener state belongs to a different role, source, participant or workflow " ++ "configuration"

/-- `_validate_state`. -/
def validateState (config : Config) (document : Value) : Except String Unit := do
  match document with
  | .obj state =>
    match state.lookup "schema_version", state.lookup "identity" with
    | some (.int 1), some identity =>
      if ¬ identity.same config.identity then
        throw foreignState
    | _, _ => throw foreignState
    match state.lookup "completed_round", state.lookup "jobs" with
    | some (.int completed), some (.obj jobs) =>
      if completed < -1 then throw "Malformed listener state"
      let nonterminal ← jobs.foldlM (validateJob config.role completed) []
      match state.lookup "active" with
      | none | some .null => if nonterminal ≠ [] then throw "Listener active job is inconsistent"
      | some (.str active) =>
        if active ∉ jobs.map (·.1) then throw "Malformed active listener job"
        if nonterminal ≠ [active] then throw "Listener active job is inconsistent"
      | some _ => throw "Malformed active listener job"
      if config.role.attempts ∧ ¬ jobs.all validateAttempt then
        throw "Malformed owner attempt number"
    | _, _ => throw "Malformed listener state"
  | _ => throw "Cannot read listener state; preserve it for recovery"

/-! ### The calls of a listener -/

/-- What can be raised. An `interrupt` is no `Exception`. -/
inductive Raised where
  | uncertainOperation (message : String)
  | stateError (message : String)
  | publicationUncertain
  | other (name : String)
  | interrupt
deriving DecidableEq

/-- The result of the readiness probe. -/
structure Probe where
  baseRevision : String
  roundNumber : Nat
  ready : Bool

/-- What `before_publish` is called with. -/
structure Prepared where
  repoId : String
  revision : String
  roundNumber : Nat
  referenceName : String
  /-- `fedavg_round.json` of the aggregate. -/
  documentRound : Nat
  documentBase : String
  intent : Value

/-- What the runner returns. -/
structure Published where
  status : String
  publication : Option Value
  result : Value

/-- The context that the client saves with its download. -/
structure Context where
  backend : String
  repoId : String
  baseRevision : String
  sourceRound : Nat
  baseModelDir : String
deriving DecidableEq

/-- The calls that a method makes. -/
inductive Op where
  | save (s : Saved)
  | resolveReference
  | roundMetadata (revision : String)
  | jobDir (revision : String)
  | safePaths (revision : String)
  | removeOwned (revision : String)
  | download (revision : String)
  | readContext (revision : String)
  | train (revision : String)
  | validateSubmission (revision : String)
  | publishSubmission (base : String) (round : Nat)
  | policyDigest
  | probe (revision : String)
  | aggregate (revision : String)
  | publishAggregate (base : String) (round : Nat)

/-- The answers. Everything but `_save` may raise. The `ListenerStateError` of a `_save` ends `run`,
and the next run reads the file: a `_save` that fails is a crash before it or, if the file was
replaced, a crash after it, and `Action.crash` is both. -/
@[reducible] def Ans : Op → Type
  | .save _ => Unit
  | .resolveReference => Except Raised String
  | .roundMetadata _ => Except Raised Nat
  | .jobDir _ | .safePaths _ | .removeOwned _ => Except Raised Unit
  | .download _ => Except Raised Nat
  | .readContext _ => Except Raised Context
  | .train _ | .validateSubmission _ => Except Raised Unit
  | .publishSubmission _ _ => Except Raised Value
  | .policyDigest => Except Raised (Option String)
  | .probe _ => Except Raised Probe
  | .aggregate _ => Except Raised Prepared
  | .publishAggregate _ _ => Except Raised Published

/-- A method of a listener. -/
abbrev Method (α : Type) := Task Op Ans Saved Raised α

/-! ### What the listeners share -/

section
variable (s : Saved) (revision : String)

def getJob : Option Job := Table.get (·.revision) revision s.jobs

def statusOf : Option Status := (getJob s revision).map (·.status)

def roundOf : Option Nat := (getJob s revision).bind (·.sourceRound)

end

def modifyJob (revision : String) (f : Job → Job) (s : Saved) : Saved :=
  { s with jobs := Table.modify (·.revision) revision f s.jobs }

def activeJob (s : Saved) : Option Job := s.active.bind (getJob s)

/-- `_save`. -/
def save : Method Unit := do
  let s ← Task.memory
  Task.call (Op.save s)

/-- `_set_status`. -/
def setStatus (revision : String) (status : Status) : Method Unit := do
  Task.modify (modifyJob revision fun j => { j with status := status })
  save

/-- `_finish`. A job that succeeded raises the completed round. -/
def finishJob (role : Role) (revision : String) (status : Status) (update : Job → Job) (s : Saved) :
    Saved :=
  let s := modifyJob revision (fun j => { update j with status := status }) s
  let completed :=
    if status = role.success then
      match roundOf s revision with
      | some n => max s.completedRound n
      | none => s.completedRound
    else s.completedRound
  { s with completedRound := completed, active := none }

/-- `_finish`, and the file. -/
def finish (role : Role) (revision : String) (status : Status) (update : Job → Job) :
    Method Unit := do
  Task.modify (finishJob role revision status update)
  save

/-- The job ends as `skipped`. -/
def skip (role : Role) (revision reason : String) : Method Unit :=
  finish role revision .skipped fun j => { j with reason := some reason }

/-- White space as `str.strip` has it. -/
def isSpace (c : Char) : Bool :=
  let n := c.toNat
  decide (9 ≤ n ∧ n ≤ 13) || decide (28 ≤ n ∧ n ≤ 32) || decide (8192 ≤ n ∧ n ≤ 8202) ||
    [0x85, 0xa0, 0x1680, 0x2028, 0x2029, 0x202f, 0x205f, 0x3000].contains n

/-- `_text`. -/
def text (value label : String) : Except Raised String :=
  match value.toList with
  | [] => .error (.stateError s!"{label} must be nonempty without surrounding whitespace")
  | c :: rest =>
    if isSpace c ∨ isSpace ((c :: rest).getLast (List.cons_ne_nil c rest)) then
      .error (.stateError s!"{label} must be nonempty without surrounding whitespace")
    else if (c :: rest).length > 4096 ∨
      (c :: rest).any (fun d => decide (d.toNat < 32 ∨ d.toNat = 127)) then
      .error (.stateError s!"Invalid {label}")
    else .ok value

/-- A call that may raise. -/
def ask {α : Type} (op : Op) (h : Ans op = Except Raised α) : Method α := do
  let answer ← Task.call op
  Task.ofExcept (cast h answer)

theorem ans_jobDir (revision : String) : Ans (.jobDir revision) = Except Raised Unit := rfl

/-- `_current_revision`. -/
def currentRevision : Method String := do
  let revision ← ask .resolveReference rfl
  Task.ofExcept (text revision "resolved revision")

/-- A new job is the active one. -/
def addJob (job : Job) (s : Saved) : Saved :=
  { s with jobs := s.jobs ++ [job], active := some job.revision }

/-- How a poll ends. -/
inductive Outcome where
  | idle
  | skipped
  | notReady
  | submitted
  | published
deriving DecidableEq, Repr

/-- An operator's recovery. -/
inductive Recovery where
  | succeeded
  | retry
deriving DecidableEq, Repr

/-- `resolve_uncertain`: a job whose outcome is unknown is done, or it may be published again. -/
def resolveUncertain (role : Role) (again : Status) (refusal : String) (recovery : Recovery) :
    Method Unit := do
  let s ← Task.memory
  match activeJob s with
  | none => Task.raise (.stateError refusal)
  | some job =>
    if job.status.isUncertain then
      match recovery with
      | .succeeded => finish role job.revision role.success fun j => { j with reconciled := true }
      | .retry => setStatus job.revision again
    else Task.raise (.stateError refusal)

/-- `__enter__`, once the lock is taken and the state is read: an interrupted publication has an
unknown outcome. -/
def recover : Method Unit := do
  let s ← Task.memory
  match activeJob s with
  | none => pure ()
  | some job => if job.status = .publishing then setStatus job.revision .uncertain else pure ()

end Hf2l.Listener
