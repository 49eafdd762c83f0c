import Hf2l.Listener.Engine

/-!
# `Hf2l.Listener.Client`: one submission for each round

`ClientListener` of `src/hf2l/listener/client.py`. A job is downloaded, trained and published,
and a poll goes on where the last one stopped. Whether the round of a job is done already is
checked when the job is made, between two writes of the state.
-/

set_option autoImplicit false

namespace Hf2l.Listener

open Lib Lib.Process Lib.Json

/-- What a client is configured with. -/
structure ClientConfig where
  backend : String
  repoId : String
  identity : Value
  plain : identity.Plain

/-- `_is_current`. -/
def isCurrent (role : Role) (revision : String) : Method Bool := do
  let current ← currentRevision
  if current = revision then pure true
  else do
    skip role revision "reference_advanced"
    pure false

/-- `_check_context`. -/
def checkContext (c : ClientConfig) (revision : String) : Method Context := do
  let context ← ask (.readContext revision) rfl
  let s ← Task.memory
  if context.backend = c.backend ∧ context.repoId = c.repoId ∧ context.baseRevision = revision ∧
      roundOf s revision = some context.sourceRound ∧ context.baseModelDir = "base_model" then
    pure context
  else Task.raise (.stateError "Saved client context does not match the scheduled listener job")

/-- `submit_round`. -/
def submitRound (revision : String) (context : Context) : Method Value := do
  ask (.validateSubmission revision) rfl
  ask (.publishSubmission context.baseRevision context.sourceRound) rfl

/-- The handler of `submit_round`: an interrupt is not handled. -/
def submissionFailed (revision : String) (e : Raised) : Method Value :=
  if e = .interrupt then Task.raise e
  else do
    setStatus revision .uncertain
    Task.raise (.uncertainOperation
      "Submission outcome is unknown; inspect the remote submission before explicit recovery")

section
variable (c : ClientConfig) (revision : String)

/-- The last part of `poll_once`. The state is written before the remote call, and whatever that
raises leaves a job that is not published again by itself. -/
def clientPublish : Method Outcome := do
  let current ← isCurrent clientRole revision
  if current then do
    let context ← checkContext c revision
    ask (.validateSubmission revision) rfl
    setStatus revision .publishing
    let result ← Task.handle (submitRound revision context) (submissionFailed revision)
    finish clientRole revision .submitted fun j => { j with result := some result }
    pure .submitted
  else pure .skipped

/-- A job whose base is downloaded. -/
def clientTrain : Method Outcome := do
  let current ← isCurrent clientRole revision
  if current then do
    let _ ← checkContext c revision
    ask (.removeOwned revision) rfl
    ask (.train revision) rfl
    setStatus revision .ready
    clientPublish c revision
  else pure .skipped

/-- A job that has nothing on disk yet. -/
def clientDownload : Method Outcome := do
  setStatus revision .downloading
  ask (.removeOwned revision) rfl
  let round ← ask (.download revision) rfl
  let s ← Task.memory
  if roundOf s revision = some round then do
    let current ← isCurrent clientRole revision
    if current then do
      setStatus revision .training
      clientTrain c revision
    else pure .skipped
  else Task.raise (.other "ValueError")

/-- A job goes on where it stopped. -/
def clientWork : Method Outcome := do
  ask (.jobDir revision) (ans_jobDir revision)
  let s ← Task.memory
  match statusOf s revision with
  | some .pending | some .downloading => clientDownload c revision
  | some .training => clientTrain c revision
  | _ => clientPublish c revision

/-- There is no job: make one, unless there was one for this revision. -/
def clientSchedule : Method Outcome := do
  let s ← Task.memory
  if (getJob s revision).isSome then pure .idle
  else do
    let round ← ask (.roundMetadata revision) rfl
    Task.modify (addJob { revision := revision, sourceRound := some round, status := .pending })
    save
    if (round : Int) ≤ s.completedRound then do
      skip clientRole revision "round_already_completed"
      pure .skipped
    else clientWork c revision

end

/-- `poll_once`. -/
def clientPoll (c : ClientConfig) : Method Outcome := do
  let s ← Task.memory
  match activeJob s with
  | none => do
    let revision ← currentRevision
    clientSchedule c revision
  | some job =>
    if job.status.isUncertain then
      Task.raise (.uncertainOperation <| "Submission outcome is unknown; reconcile it " ++
        "and use --resolve-uncertain submitted or retry")
    else do
      let revision ← currentRevision
      if job.revision = revision then clientWork c revision
      else do
        skip clientRole job.revision "reference_advanced"
        clientSchedule c revision

/-- `resolve_uncertain`. -/
def clientResolveUncertain : Recovery → Method Unit :=
  resolveUncertain clientRole .ready "No uncertain submission needs recovery"

end Hf2l.Listener
