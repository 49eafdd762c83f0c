import Hf2l.Listener.Engine

/-!
# `Hf2l.Listener.Owner`: one aggregate for each round

`OwnerListener` of `src/hf2l/listener/owner.py`. Every poll probes the round again before it
goes on. The runner calls the hook `before_publish` once, right before it publishes.
-/

set_option autoImplicit false

namespace Hf2l.Listener

open Lib Lib.Process Lib.Json

/-- What an owner is configured with. -/
structure OwnerConfig where
  repoId : String
  identity : Value
  plain : identity.Plain
  allowlistDigest : Option String

/-- `_check_policy`. -/
def checkPolicy (c : OwnerConfig) : Method Unit := do
  let digest ← ask .policyDigest rfl
  if digest = c.allowlistDigest then pure ()
  else
    Task.raise (.stateError
      "Owner allowlist changed; reconcile saved work before changing configuration")

/-- `before_publish`. -/
def beforePublish (c : OwnerConfig) (revision : String) (p : Prepared) : Method Unit := do
  checkPolicy c
  let s ← Task.memory
  let round := roundOf s revision
  if p.repoId = c.repoId ∧ p.revision = revision ∧ round = some p.roundNumber ∧
    p.referenceName = "main" then
    if p.documentRound = p.roundNumber + 1 ∧ p.documentBase = revision then do
      Task.modify (modifyJob revision fun j => { j with publicationIntent := some p.intent })
      setStatus revision .publishing
    else Task.raise (.stateError "Aggregate manifest differs from the scheduled owner job")
  else Task.raise (.stateError "Publication context differs from the scheduled owner job")

/-- `run_round` as far as it can be seen: it prepares an aggregate, calls the hook, and
publishes. -/
def runRound (c : OwnerConfig) (revision : String) : Method Published := do
  let p ← ask (.aggregate revision) rfl
  beforePublish c revision p
  ask (.publishAggregate p.revision p.roundNumber) rfl

/-- The handler of `run_round`. `PublicationUncertain` may come before the hook. -/
def roundFailed (revision : String) (e : Raised) : Method Published := do
  let s ← Task.memory
  if e ≠ .interrupt ∧ (statusOf s revision = some .publishing ∨ e = .publicationUncertain) then do
    setStatus revision .uncertain
    Task.raise (.uncertainOperation
      "Aggregate outcome is unknown; inspect the remote publication before explicit recovery")
  else Task.raise e

section
variable (c : OwnerConfig) (revision : String)

/-- The runner is called, and it has to confirm what it did. -/
def ownerPublish : Method Outcome := do
  let outcome ← Task.handle (runRound c revision) (roundFailed revision)
  if outcome.status = "published" ∧ outcome.publication.isSome then do
    finish ownerRole revision .published fun j => { j with result := some outcome.result }
    pure .published
  else do
    setStatus revision .uncertain
    Task.raise (.uncertainOperation "The owner runner did not confirm its publication outcome")

/-- A new attempt. Its number is saved before anything is made. -/
def ownerAttempt : Method Outcome := do
  ask (.jobDir revision) (ans_jobDir revision)
  Task.modify (modifyJob revision fun j => { j with attempt := j.attempt.map (· + 1) })
  ask (.safePaths revision) rfl
  setStatus revision .aggregating
  ownerPublish c revision

/-- The readiness check and what follows from it. -/
def ownerProbe : Method Outcome := do
  let probe ← ask (.probe revision) rfl
  let s ← Task.memory
  let round := roundOf s revision
  if probe.baseRevision = revision ∧ (round = none ∨ round = some probe.roundNumber) then do
    Task.modify (modifyJob revision fun j => { j with sourceRound := some probe.roundNumber })
    if (probe.roundNumber : Int) ≤ s.completedRound then do
      skip ownerRole revision "round_already_completed"
      pure .skipped
    else if probe.ready then do
      let current ← currentRevision
      if current = revision then do
        checkPolicy c
        ownerAttempt c revision
      else do
        skip ownerRole revision "reference_advanced"
        pure .skipped
    else do
      setStatus revision .pending
      pure .notReady
  else Task.raise (.other "ValueError")

/-- A revision that the owner has not seen. -/
def ownerSchedule : Method Outcome := do
  let s ← Task.memory
  if (getJob s revision).isSome then pure .idle
  else do
    Task.modify (addJob
      { revision := revision, sourceRound := none, status := .pending, attempt := some 0 })
    save
    ownerProbe c revision

end

/-- `poll_once`. -/
def ownerPoll (c : OwnerConfig) : Method Outcome := do
  let s ← Task.memory
  match activeJob s with
  | none => do
    checkPolicy c
    let revision ← currentRevision
    ownerSchedule c revision
  | some job =>
    if job.status.isUncertain then
      Task.raise (.uncertainOperation <| "Aggregate outcome is unknown; inspect the backend " ++
        "and use --resolve-uncertain published or retry")
    else do
      checkPolicy c
      -- An attempt that never reached the hook leaves nothing behind.
      if job.status = .aggregating ∧ job.attempt.getD 0 ≠ 0 then ask (.removeOwned job.revision) rfl
      else pure ()
      let revision ← currentRevision
      if job.revision = revision then ownerProbe c revision
      else do
        skip ownerRole job.revision "reference_advanced"
        ownerSchedule c revision

/-- `resolve_uncertain`. -/
def ownerResolveUncertain : Recovery → Method Unit :=
  resolveUncertain ownerRole .pending "No uncertain aggregate needs recovery"

end Hf2l.Listener
