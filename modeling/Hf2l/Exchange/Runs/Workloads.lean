import Hf2l.Exchange.Go.Effects
import Hf2l.Exchange.Python.Effects
import Hf2l.Exchange.Service.Workloads
import Hf2l.Lib.Run

/-!
# `Hf2l.Exchange.Runs.Workloads`: grants along the runs of the two services

The grants of a managed space are fenced by attempt in every state of every run, whatever the
clocks read and whoever calls; grants are kept in the order they were made in, and an attempt
that is revoked stays without an enabled grant.
-/

set_option autoImplicit false

namespace Hf2l.Exchange

open Lib Lib.Checked

/-- Workload grants along a run. -/
structure Workloads {τ : Type} (step : Db → τ → Db) (revokes : Db → τ → Option String) (db : Db)
    (txs : List τ) :
    Prop where
  fenced : Run.Always step Db.GrantsFenced db txs
  /-- Grants stand in the order they were made in: one transaction only adds to the end. -/
  appended : Run.Every step
    (fun db tx => db.grants.map Granting.identity <+: (step db tx).grants.map Granting.identity) db
      txs
  /-- From a revocation on, no grant of the attempt is enabled. -/
  final : ∀ before tx after attemptId, txs = before ++ tx :: after →
    revokes (before.foldl step db) tx = some attemptId →
    Run.Always step (fun db => ∀ g ∈ db.grants, g.attemptId = attemptId → g.enabled = false)
      (step (before.foldl step db) tx) after

theorem workloads_of_granting {τ : Type} {step : Db → τ → Db} {revokes : Db → τ → Option String}
    (hstep : ∀ db tx, Granting db (step db tx))
    (hrevoke : ∀ db tx attemptId, revokes db tx = some attemptId → (step db tx).Revoked attemptId)
    {db : Db} (h : db.Admitted) (txs : List τ) : Workloads step revokes db txs where
  fenced := Run.always_of_invariant (fun db tx hdb => (hstep db tx).admitted hdb)
    (fun _ hdb => hdb.fenced) h txs
  appended := Run.every_of_forall (fun db tx => (hstep db tx).appended) db txs
  final := by
    intro before tx after attemptId _ hr
    have hkeep : ∀ db tx, db.Admitted → (step db tx).Admitted :=
      fun db tx hdb => (hstep db tx).admitted hdb
    have hadm : (step (before.foldl step db) tx).Admitted :=
      hkeep _ tx (Run.invariant hkeep h before)
    -- The tombstone stays, and with it every grant of the attempt is disabled.
    refine Run.always_of_invariant (J := fun s => s.Admitted ∧ s.Revoked attemptId)
      (fun s a hs => ⟨hkeep s a hs.1, (hstep s a).revoked hs.2⟩) (fun s hs g hg he => ?_)
        ⟨hadm, hrevoke _ tx _ hr⟩ after
    exact (hs.1.disabled g hg).mpr (he ▸ hs.2)

/-- A revocation that succeeds, and is not a replay, leaves a tombstone. -/
theorem Command.revoked_of_revokes {d : Dialect} {env : Env} {p : Principal} {clock : Clock}
    {db : Db} {c : Command} {attemptId : String} (h : c.revokes d env p clock db = some attemptId) :
    ∃ db' response, c.run d env p clock db = .ok (db', response) ∧ db'.Revoked attemptId := by
  unfold Command.revokes at h
  split at h
  · rename_i a key
    split_ifs at h with hok
    obtain ⟨hok, hnew⟩ := hok
    obtain rfl := Option.some.inj h
    cases hrun : (Command.revokeWorkloadGrants a key).run d env p clock db with
    | error e => simp [hrun, Except.isOk, Except.toBool] at hok
    | ok r => exact ⟨r.1, r.2, rfl, Service.revokeWorkloadGrants_revoked hrun hnew⟩
  · simp at h

theorem Stepped.granting {d : Dialect} {env : Env} {clock : Clock} {db db' : Db}
    {call : Option (Principal × Command)} {ids : List Nat}
    (h : Stepped d env clock db call ids db') : Granting db db' := by
  cases h with
  | failed _ _ _ => exact .same ⟨rfl, rfl, rfl⟩
  | command p c _ h => exact c.run_granting h
  | transfer h => exact h.granting

namespace Python

/-- The attempt that the transaction revokes. -/
def revokes (env : Env) (db : Db) (tx : Tx × Clock) : Option String :=
  match tx.1 with
  | .command p c => c.revokes dialect env p tx.2 db
  | _ => none

theorem step_revoked (env : Env) (db : Db) (tx : Tx × Clock) (attemptId : String)
    (h : revokes env db tx = some attemptId) : (step env db tx).Revoked attemptId := by
  obtain ⟨tx, clock⟩ := tx
  cases tx with
  | command p c =>
    obtain ⟨db', response, hrun, hr⟩ := Command.revoked_of_revokes h
    simp only [step, Tx.run, hrun, Except.map]
    exact hr
  | _ => simp [revokes] at h

end Python

namespace Go

/-- The attempt that the transaction revokes. -/
def revokes (env : Env) (db : Db) (tx : Tx × Clock) : Option String :=
  match tx.1 with
  | .command p c => c.revokes dialect env p tx.2 db
  | _ => none

theorem step_revoked (env : Env) (db : Db) (tx : Tx × Clock) (attemptId : String)
    (h : revokes env db tx = some attemptId) : (step env db tx).Revoked attemptId := by
  obtain ⟨tx, clock⟩ := tx
  cases tx with
  | command p c =>
    obtain ⟨db', response, hrun, hr⟩ := Command.revoked_of_revokes h
    simp only [step, Tx.run, hrun, Except.map]
    exact hr
  | _ => simp [revokes] at h

end Go

/-- **Workload grants are fenced by attempt, in both services.** Along every run from a new space
the enabled grants of a principal are of one attempt and epoch, the epochs of its attempts
increase in the order of their grants, a revoked attempt is never enabled again, and a retired
space has no enabled grant. -/
theorem workload_grants_fenced (env : Env) (spaceId profile : String) (limits : Limits)
    (creator : Principal) (now : Time) :
    (∀ txs : List (Python.Tx × Clock), Workloads (Python.step env) (Python.revokes env)
        (Db.created spaceId profile limits creator now) txs) ∧
      ∀ txs : List (Go.Tx × Clock), Workloads (Go.step env) (Go.revokes env)
        (Db.created spaceId profile limits creator now) txs := by
  have hcreated : (Db.created spaceId profile limits creator now).Admitted :=
    ⟨List.Pairwise.nil, fun _ h => absurd h List.not_mem_nil,
      fun _ _ h => absurd h List.not_mem_nil⟩
  exact ⟨workloads_of_granting (fun db tx => (Python.step_stepped env db tx).granting)
    (Python.step_revoked env) hcreated,
    workloads_of_granting (fun db tx => (Go.step_stepped env db tx).granting) (Go.step_revoked env)
    hcreated⟩

end Hf2l.Exchange
