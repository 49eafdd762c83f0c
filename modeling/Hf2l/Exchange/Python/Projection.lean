import Hf2l.Exchange.Python.Effects

/-!
# `Hf2l.Exchange.Python.Projection`: what one step of the system does

A step of the system makes at most one transaction, and it moves one participant. This module
separates the two. `Sys.transaction` is the transaction of a step, so that the database after
a step is that of `Python.step`; `Sys.Rest` lists what can happen to the executions, the PUTs,
the calls and the URLs, with what the transaction established for them. `Sys.act_rest` is the
inversion lemma that every result about runs of the system starts from.
-/

set_option autoImplicit false

namespace Hf2l.Exchange.Python

open Lib Lib.Checked
open Attempts
open Transfers

/-! ### Transactions of a step -/

/-- The transaction that an execution makes next, if it makes one. -/
def Execution.transaction (e : Execution) : Option Tx :=
  match e.phase with
  | .overdue => some (.commit e.attempt (.failed "transfer_deadline_exceeded"))
  | .returned _ o => some (.commit e.attempt o)
  | .lost => some (.abandon e.attempt)
  | .handling f =>
    if f = .invalidParts ∧ e.attempt.state = .completing then
      some (.commit e.attempt (.uploading none))
    else if f.retryable = true ∨ e.attempt.state = .cleanup then some (.retry e.attempt f.code)
    else some (.commit e.attempt (.failed f.code))
  | .recovering => some (.retry e.attempt "internal_transfer_error")
  | .settling => some (.settleMutation e.attempt)
  | .abandoning => some (.abandon e.attempt)
  | .releasing => some (.releaseLease e.attempt)
  | .ready | .checking | .due | .calling _ => none

/-- The transaction of a step, if it makes one. -/
def Sys.transaction (s : Sys) : Action → Option (Tx × Clock)
  | .command p c clock => some (.command p c, clock)
  | .initiate p r b clock => some (.initiate p r b, clock)
  | .completeUpload p r b clock => some (.completeUpload p r b, clock)
  | .process id cleanup clock => some (.acquire id cleanup, clock)
  | .next id clock => (s.execution id).bind fun e => e.transaction.map fun tx => (tx, clock)
  | .heartbeat id clock =>
    (s.execution id).bind fun e => if e.beating then some (.heartbeat e.attempt, clock) else none
  | .exposeGrants id expiry expiries clock =>
    (s.signing id).map fun g => (.exposeGrants g.principal g.request expiry expiries, clock)
  | .exposeDownload p r b expiry clock => some (.exposeDownload p r b expiry, clock)
  | .admitPut p r b part clock => some (.admitPut p r b part, clock)
  | .exposePut id expiry clock => (s.put id).bind fun p =>
    if p.phase = .admitted then some (.exposePut p.principal p.handle expiry, clock) else none
  | .finishPut id clock => (s.put id).bind fun p =>
    if p.phase = .ended then some (.finishPut p.handle, clock) else none
  | .expire id clock => some (.expire id, clock)
  | .repair ids stopped quiesced clock => some (.repairMutations ids stopped quiesced, clock)
  | .prune id clock => (s.pruning id).map fun p => (.prune p.rows, clock)
  | .pruneEvents ids clock => some (.pruneEvents ids, clock)
  | .call _ | .returns _ _ | .raise _ | .crash _ | .callEnds _ | .signGrants _ _ _ _ _ | .startPut _
  | .putReturns _ _ | .dropPut _ | .selectPruned _ _ _ => none

/-- The database after a step. -/
def Sys.after (env : Env) (s : Sys) (a : Action) : Db :=
  (s.transaction a).elim s.db (Python.step env s.db)

/-! ### Executions -/

/-- The states that `commit` takes an attempt between. -/
inductive Follows : TransferState → TransferState → Prop
  | started : Follows .initiating .uploading
  | completed : Follows .completing .verifying
  | rejected : Follows .completing .uploading
  | verified : Follows .verifying .verified
  | failed (s : TransferState) (h : s = .initiating ∨ s = .completing ∨ s = .verifying) :
    Follows s .failed
  | cleaned : Follows .cleanup .cleaned

/-- The states that an attempt is leased in. -/
def TransferState.worked (s : TransferState) : Prop :=
  s = .initiating ∨ s = .completing ∨ s = .verifying ∨ s = .cleanup

/-- What the program point of an execution says about its snapshot and about `resolved`. -/
def Execution.AtPhase (e : Execution) : Phase → Prop
  | .ready => e.resolved = true
  | .overdue => e.resolved = true ∧ e.attempt.state ≠ .cleanup
  | .checking => e.resolved = true ∧ e.attempt.state = .cleanup
  | .due | .calling _ => e.resolved = true
  | .returned _ o => e.resolved = true ∧ Follows e.attempt.state o.state
  | .lost => e.resolved = true
  | .handling f => e.resolved = !f.uncertain
  | .recovering => True
  | .settling => e.resolved = true
  | .abandoning => True
  | .releasing => True

structure Execution.Coherent (e : Execution) : Prop where
  worked : TransferState.worked e.attempt.state
  phase : e.AtPhase e.phase

/-- The program points before the provider call. -/
def Phase.early : Phase → Bool
  | .ready | .checking | .due => true
  | _ => false

/-- A transaction or an exception takes an execution from one program point to another. -/
structure Execution.Goes (e e' : Execution) : Prop where
  id : e'.id = e.id
  attempt : e'.attempt = e.attempt
  acquiredAt : e'.acquiredAt = e.acquiredAt
  coherent : e.Coherent → e'.Coherent
  resolved : e.Coherent → e'.resolved = true → e.resolved = true
  /-- An exception during the call leaves its end unknown. -/
  calling : ∀ c, e.phase = .calling c → e'.resolved = false
  early : e'.phase.early = true → e.phase.early = true
  past : (∀ c, e'.phase ≠ .calling c) ∧ ∀ c o, e'.phase ≠ .returned c o

namespace Execution

variable {e : Execution}

theorem goes_raised (e : Execution) : e.Goes e.raised where
  id := rfl
  attempt := rfl
  acquiredAt := rfl
  coherent h := ⟨h.worked, trivial⟩
  resolved _ h := by simp [raised] at h
  calling _ _ := rfl
  early h := by simp [raised, Phase.early] at h
  past := by simp [raised]

/-- An execution without a call in flight goes to a program point that asks for no more than it
has. -/
theorem goes_phase {phase : Phase} (size : Nat) (sha256 : String) (hp : ∀ c, e.phase ≠ .calling c)
    (hat : e.Coherent → e.AtPhase phase) (hearly : phase.early = true → e.phase.early = true)
    (hpast : (∀ c, phase ≠ .calling c) ∧ ∀ c o, phase ≠ .returned c o) :
    e.Goes { e with size, sha256, phase } where
  id := rfl
  attempt := rfl
  acquiredAt := rfl
  coherent h := ⟨h.worked, hat h⟩
  resolved _ h := h
  calling c h := absurd h (hp c)
  early := hearly
  past := hpast

/-- The `finally` block: it settles the marker only if the call is known to have ended. -/
theorem goes_finish (size : Nat) (sha256 : String) (hp : ∀ c, e.phase ≠ .calling c) :
    e.Goes ({ e with size, sha256 } : Execution).finish := by
  refine goes_phase size sha256 hp (fun _ => ?_) (fun h => ?_) ?_
  · split_ifs with hm hr
    · exact hr
    · trivial
    · trivial
  · split_ifs at h <;> simp [Phase.early] at h
  · split_ifs <;> simp

/-- After the attachment is read, an execution is due unless its deadline has passed; a cleanup
is checked first. -/
theorem goes_dispatch (env : Env) (b : Blob) (now : Time) (hp : e.phase = .ready) :
    e.Goes (e.dispatch env b now) := by
  have hready : e.Coherent → e.resolved = true := by
    intro h
    have := h.phase
    rwa [hp] at this
  have hcalling : ∀ c, e.phase ≠ .calling c := by simp [hp]
  have hdue : e.Goes { e with size := b.size, sha256 := b.sha256, phase := .due } :=
    goes_phase _ _ hcalling hready (by simp [hp, Phase.early]) (by simp)
  unfold dispatch
  dsimp only
  split_ifs with hdead
  · have hs : e.attempt.state ≠ .cleanup := by
      simp only [deadlinePassed, Bool.and_eq_true, decide_eq_true_eq] at hdead
      exact hdead.1
    exact goes_phase _ _ hcalling (fun h => ⟨hready h, hs⟩) (by simp [Phase.early]) (by simp)
  · split
    · rename_i hs
      exact goes_phase _ _ hcalling (fun h => ⟨hready h, hs⟩) (by simp [hp, Phase.early]) (by simp)
    · exact hdue
    · exact hdue
    · exact hdue
    · exact goes_finish _ _ hcalling

end Execution

/-! ### What the transactions establish for the participants -/

/-- The snapshot of a new execution. Its lease is new; a call that it makes is marked, and a
cleanup has neither markers nor a grant in force. -/
structure Spawned (l l' : Ledger) (a : TransferAttempt) (now : Time) : Prop where
  mem : a ∈ l'.attempts
  token : ∃ i, a.token = some (.lease (l.fresh i)) ∧ l.minted + i < l'.minted
  worked : TransferState.worked a.state
  marked : a.state = .initiating ∨ a.state = .completing → ∀ t, a.token = some t →
    t ∈ a.mutationTokens
  cleared : a.state = .cleanup → a.mutationTokens = [] ∧ a.grantExpiresAt ≤ now

/-- The receipt of a PUT: its marker is new and in the ledger. -/
structure Marked (l l' : Ledger) (h : GatewayPutHandle) : Prop where
  row : ∃ a ∈ l'.attempts, a.id = h.attemptId ∧ h.token ∈ a.mutationTokens
  key : h.objectKey.attemptId = h.attemptId
  token : ∃ part, h.token = .gatewayPut part (l.fresh 0)
  drawn : l.minted < l'.minted

/-- URLs are exposed for an upload, and their expiries are recorded. -/
structure Exposed (l l' : Ledger) (attemptId : Id) (expiries : List Time) : Prop where
  row : ∃ a ∈ l.attempts, a.id = attemptId ∧ a.state = .uploading
  raised : ∀ a ∈ l'.attempts, a.id = attemptId → ∀ t ∈ expiries, t ≤ a.grantExpiresAt

section Facts

variable {env : Env} {p : Principal} {clock : Clock} {db db' : Db} {recordId attachmentId : Id}

variable {a : TransferAttempt} {b : Blob} {expiry : Time}

theorem openAttempt_spawned {l : Ledger} (ha : Initiated l b a.work)
    (now : Time) : Spawned l (l.openAttempt b a) a now where
  mem := List.mem_append_right _ List.mem_cons_self
  token := ⟨1, ha.token, Nat.lt_succ_self _⟩
  worked := Or.inl ha.state
  marked _ t ht := by
    have hmarks : a.mutationTokens = [.lease (l.fresh 1)] := ha.mutationTokens
    have htoken : a.token = some (.lease (l.fresh 1)) := ha.token
    rw [hmarks, List.mem_singleton]
    exact Option.some.inj (ht.symm.trans htoken)
  cleared h := by
    have hs : a.state = .initiating := ha.state
    simp [hs] at h

theorem initiate_spawned
    (h : initiate env p recordId attachmentId clock db = .ok (db', .execute a)) :
    Spawned db.ledger db'.ledger a (clock 1) := by
  simp only [initiate, block_ok, refuse_ok, not_not] at h
  obtain ⟨member, -, rb, -, -, h⟩ := h
  split at h
  · simp [pure_ok] at h
  · split at h
    · simp [pure_ok] at h
    · simp only [block_ok, refuse_ok, Next.execute.injEq] at h
      obtain ⟨-, -, -, rfl, rfl⟩ := h
      exact openAttempt_spawned (newAttempt_initiated _ _) _

theorem complete_spawned
    (h : Transfers.complete env p recordId attachmentId clock db = .ok (db', .execute a)) :
    Spawned db.ledger db'.ledger a (clock 1) := by
  simp only [Transfers.complete, block_ok, refuse_ok, not_not] at h
  obtain ⟨member, -, rb, -, -, h⟩ := h
  split at h
  · simp [pure_ok] at h
  · rename_i attempt ha
    split_ifs at h with hs
    · simp [pure_ok] at h
    · simp only [block_ok, refuse_ok, Next.execute.injEq] at h
      obtain ⟨-, -, rfl, rfl⟩ := h
      exact
        { mem := Table.mem_put_self (Ledger.active_some ha).1 rfl
          token := ⟨0, rfl, Nat.lt_succ_self _⟩
          worked := Or.inr (Or.inl rfl)
          marked := fun _ t ht => by
            rw [← Option.some.inj ht]
            exact List.mem_append_right _ List.mem_cons_self
          cleared := fun hc => by simp at hc }

theorem recoverInitiation_spawned {attempt : TransferAttempt} {now : Time}
    (h : recoverInitiation env b attempt now db = .ok (db', some a)) :
    Spawned db.ledger db'.ledger a now := by
  simp only [recoverInitiation, bind_ok, found_ok] at h
  obtain ⟨r, -, h⟩ := h
  split_ifs at h
  · simp [pure_ok] at h
  · simp [pure_ok] at h
  · simp only [pure_ok, Prod.mk.injEq, Option.some.injEq] at h
    obtain ⟨rfl, rfl⟩ := h
    have hnew := openAttempt_spawned (l := db.ledger.putAttempt (superseded attempt now)) (b := b)
      (a := { (db.ledger.putAttempt (superseded attempt now)).newAttempt env b now with
        retryCount := (superseded attempt now).retryCount, lastError :=
          (superseded attempt now).lastError,
        createdAt := (superseded attempt now).createdAt, updatedAt :=
          (superseded attempt now).updatedAt })
      ⟨rfl, rfl, rfl, ⟨rfl, rfl⟩, rfl, rfl, rfl⟩ now
    exact ⟨hnew.mem, hnew.token, hnew.worked, hnew.marked, hnew.cleared⟩

theorem acquire_spawned {attemptId : Id} {cleanup : Option Bool}
    (h : Transfers.acquire env attemptId cleanup clock db = .ok (db', some a)) :
    Spawned db.ledger db'.ledger a (clock 0) := by
  unfold Transfers.acquire at h
  dsimp only at h
  split at h
  · simp at h
  · rename_i attempt hat
    obtain ⟨ha, -⟩ := Table.get_mem hat
    simp only [bind_ok, found_ok] at h
    obtain ⟨b, -, h⟩ := h
    split_ifs at h with h1 h2 h3 h4 h5 h6 h7
    · simp [pure_ok] at h
    · simp [pure_ok] at h
    · simp [pure_ok] at h
    · simp [pure_ok] at h
    · exact recoverInitiation_spawned h
    · simp [pure_ok] at h
    · simp only [pure_ok, Prod.mk.injEq, Option.some.injEq] at h
      obtain ⟨rfl, rfl⟩ := h
      exact
        { mem := Table.mem_put_self ha rfl
          token := ⟨0, rfl, Nat.lt_succ_self _⟩
          worked := Or.inr h7
          marked := fun hs t ht => by
            have hcompleting : attempt.state = .completing := hs.resolve_left h5
            rw [← Option.some.inj ht]
            simp [withLease, hcompleting]
          cleared := fun hc => by
            -- The branches before this one have excluded markers and grants in force.
            have hclean : attempt.state = .cleanup := hc
            have hmarks : attempt.mutationTokens = [] := by
              by_contra hne
              exact h3 ⟨hclean, hne⟩
            refine ⟨?_, ?_⟩
            · simp [withLease, hclean, hmarks]
            · by_contra hlt
              exact h4 ⟨hclean, not_le.mp hlt⟩ }
    · simp [pure_ok] at h

theorem admission_marked {part : Nat} {handle : GatewayPutHandle}
    (h : beginGatewayPut.admission env p recordId attachmentId part clock db = .ok (db', handle)) :
    Marked db.ledger db'.ledger handle := by
  simp only [beginGatewayPut.admission, block_ok, refuse_ok, found_ok, not_or, not_not] at h
  obtain ⟨-, -, member, -, rb, -, attempt, ha, -, uploadId, -, ⟨-, -, -, hkey⟩, _, -, -, rfl,
    rfl⟩ := h
  exact
    { row := ⟨_, Table.mem_put_self (Ledger.active_some ha).1 rfl, rfl,
        List.mem_append_right _ List.mem_cons_self⟩
      key := by simpa using hkey
      token := ⟨part, rfl⟩
      drawn := Nat.lt_succ_self _ }

theorem raiseGrant_raised {l : Ledger} {attempt : TransferAttempt} :
    ∀ a ∈ (raiseGrant l b attempt expiry).attempts, a.id = attempt.id →
      expiry ≤ a.grantExpiresAt := by
  intro a ha hid
  rcases Table.of_mem_put ha with ⟨-, hne⟩ | rfl
  · exact absurd hid hne
  · exact le_max_right _ _

/-- The latest of the expiries that a signer gave is not before any of them. -/
theorem le_foldl_max (expiries : List Time) (expiry : Time) :
    ∀ t ∈ expiry :: expiries, t ≤ expiries.foldl max expiry := by
  induction expiries generalizing expiry with
  | nil => simp
  | cons x xs ih =>
    intro t ht
    rw [List.foldl_cons]
    have hmax := ih (max expiry x) (max expiry x) List.mem_cons_self
    rcases List.mem_cons.mp ht with rfl | ht
    · exact le_trans (le_max_left _ _) hmax
    · rcases List.mem_cons.mp ht with rfl | ht
      · exact le_trans (le_max_right _ _) hmax
      · exact ih _ t (List.mem_cons_of_mem _ ht)

theorem exposeGrants_exposed {request : SigningRequest} {expiries : List Time}
    (h : grants.expose env p request expiry expiries clock db = .ok db') :
    Exposed db.ledger db'.ledger request.attemptId (expiry :: expiries) := by
  simp only [grants.expose, block_ok, refuse_ok, found_ok, not_or, not_not] at h
  obtain ⟨member, -, rb, -, attempt, ha, ⟨-, -, hs⟩, rfl⟩ := h
  obtain ⟨hmem, hid⟩ := Table.get_mem ha
  refine ⟨⟨attempt, hmem, hid, by simpa using hs⟩, fun a ha' haid t ht => ?_⟩
  exact le_trans (le_foldl_max expiries expiry t ht) (raiseGrant_raised a ha' (haid.trans hid.symm))

theorem exposePut_exposed {handle : GatewayPutHandle}
    (h : beginGatewayPut.expose env p handle expiry clock db = .ok db') :
    Exposed db.ledger db'.ledger handle.attemptId [expiry] := by
  simp only [beginGatewayPut.expose, block_ok, refuse_ok, found_ok, not_or, not_not] at h
  obtain ⟨member, -, rb, -, current, hc, ⟨-, -, hs, -⟩, rfl⟩ := h
  obtain ⟨hmem, hid⟩ := Table.get_mem hc
  refine ⟨⟨current, hmem, hid, by simpa using hs⟩, fun a ha' haid t ht => ?_⟩
  rw [List.mem_singleton.mp ht]
  exact raiseGrant_raised a ha' (haid.trans hid.symm)

end Facts

/-! ### The rest of a step -/

/-- The provider call that `_execute` makes for an attempt. -/
def callKind : TransferState → Option CallKind
  | .cleanup => some .cleanup
  | .initiating => some .start
  | .completing => some .complete
  | .verifying => some .verify
  | _ => none

/-- The queries of `prune` find the attempt: it is cleaned and has no marker. -/
def Selectable (l : Ledger) (id : Id) : Prop :=
  ∃ x ∈ l.attempts, x.id = id ∧ x.state = .cleaned ∧ x.mutationTokens = []

/-- What a step does besides its transaction, which leads to `db`. -/
inductive Sys.Rest (s : Sys) (db : Db) : Sys → Prop
  | same : Sys.Rest s db { s with db }
  | spawn (a : TransferAttempt) (now : Time) (h : Spawned s.db.ledger db.ledger a now) :
    Sys.Rest s db ({ s with db }.spawn a now)
  | go (e e' : Execution) (he : e ∈ s.executions) (h : e.Goes e') : Sys.Rest s db
    ({ s with db }.update e')
  | leave (id : Nat) : Sys.Rest s db ({ s with db }.remove id)
  | begin (e : Execution) (kind : CallKind) (he : e ∈ s.executions) (hp : e.phase = .due)
    (hk : callKind e.attempt.state = some kind) :
    Sys.Rest s db (({ s with db }.startCall kind e.attempt.id e.attempt.objectKey
      e.attempt.token).update
      { e with phase := .calling s.tick })
  | answer (e : Execution) (c : Nat) (o : Outcome) (he : e ∈ s.executions)
    (hp : e.phase = .calling c)
    (ho : Follows e.attempt.state o.state) :
    Sys.Rest s db (({ s with db }.endCall c).update { e with phase := .returned c o })
  | fail (e : Execution) (c : Nat) (f : StorageFailure) (he : e ∈ s.executions)
    (hp : e.phase = .calling c) :
    Sys.Rest s db ((if f.uncertain then { s with db } else { s with db }.endCall c).update
      { e with resolved := !f.uncertain, phase := .handling f })
  | callEnds (c : Nat) : Sys.Rest s db ({ s with db }.endCall c)
  | sign (g : Signing) : Sys.Rest s db { s with db, signings := s.signings ++ [g] }
  | exposeGrants (g : Signing) (expiries : List Time)
    (h : Exposed s.db.ledger db.ledger g.request.attemptId expiries) :
    Sys.Rest s db (({ s with db }.removeSigning g.id).issue g.request.attemptId expiries)
  | dropSigning (id : Nat) : Sys.Rest s db ({ s with db }.removeSigning id)
  | admitPut (p : Put) (hid : p.id = s.tick) (hph : p.phase = .admitted)
    (h : Marked s.db.ledger db.ledger p.handle) : Sys.Rest s db { s with db, puts := s.puts ++ [p] }
  | exposePut (p : Put) (t : Time) (hp : p ∈ s.puts) (hph : p.phase = .admitted)
    (h : Exposed s.db.ledger db.ledger p.handle.attemptId [t]) :
    Sys.Rest s db (({ s with db }.updatePut { p with phase := .exposed }).issue
      p.handle.attemptId [t])
  | startPut (p : Put) (hp : p ∈ s.puts) (hph : p.phase = .exposed) :
    Sys.Rest s db (({ s with db }.startCall .put p.handle.attemptId p.handle.objectKey
      (some p.handle.token)).updatePut { p with phase := .calling s.tick })
  | putEnds (p : Put) (c : Nat) (hp : p ∈ s.puts) (hph : p.phase = .calling c) :
    Sys.Rest s db (({ s with db }.endCall c).updatePut { p with phase := .ended })
  | leavePut (id : Nat) : Sys.Rest s db ({ s with db }.removePut id)
  | selectPruned (p : Pruning) (h : ∀ id ∈ p.rows.attempts, Selectable db.ledger id) :
    Sys.Rest s db { s with db, prunings := s.prunings ++ [p] }
  | leavePruning (id : Nat) : Sys.Rest s db { s with db, prunings := s.prunings.filter (·.id ≠ id) }

namespace Sys

variable {db : Db} {e : Execution}

theorem Rest.db_eq {s s' : Sys} (h : s.Rest db s') : s'.db = db := by
  cases h with
  | fail e c f _ _ => cases hf : f.uncertain <;> simp [update, endCall]
  | _ => rfl

variable (env : Env) (s : Sys)

theorem execution_mem {s : Sys} {id : Nat} (h : s.execution id = some e) : e ∈ s.executions :=
  (Table.get_mem h).1

theorem put_mem {s : Sys} {id : Nat} {p : Put} (h : s.put id = some p) : p ∈ s.puts :=
  (Table.get_mem h).1

/-- One transaction of a run, by what it returns. -/
theorem step_ok {env : Env} {db' : Db} {clock : Clock} (tx : Tx)
    (h : tx.run env clock db = .ok db') :
    Python.step env db (tx, clock) = db' := by
  simp [Python.step, h]

theorem step_error {env : Env} {clock : Clock} {x : Error} (tx : Tx)
    (h : tx.run env clock db = .error x) : Python.step env db (tx, clock) = db := by
  simp [Python.step, h]

theorem commitTx_eq (clock : Clock) (tx : Tx) :
    s.commitTx env clock tx = { s with db := Python.step env s.db (tx, clock) } := by
  unfold commitTx
  split
  · rename_i db' h
    rw [step_ok tx h]
  · rename_i x h
    rw [step_error tx h]

theorem commitTx_rest (clock : Clock) (tx : Tx) :
    s.Rest (Python.step env s.db (tx, clock)) (s.commitTx env clock tx) := by
  rw [commitTx_eq]
  exact .same

/-- A transaction that returns more than the database. -/
theorem run_of_map {α : Type} {x : Except Error (Db × α)} {db' : Db} {y : α}
    (h : x = .ok (db', y)) :
    x.map (·.1) = .ok db' := by
  rw [h]
  rfl

theorem run_of_error {α : Type} {x : Except Error (Db × α)} {e : Error} (h : x = .error e) :
    x.map (·.1) = .error e := by
  rw [h]
  rfl

section
variable {env s} {clock : Clock} {tx : Tx} {db' : Db} {x : Error} {e' : Execution}

/-- A step whose transaction succeeds, or fails. -/
theorem ok_rest {s' : Sys} (h : tx.run env clock s.db = .ok db') (hr : s.Rest db' s') :
    s.Rest (Python.step env s.db (tx, clock)) s' := step_ok tx h ▸ hr

theorem error_rest {s' : Sys} (h : tx.run env clock s.db = .error x) (hr : s.Rest s.db s') :
    s.Rest (Python.step env s.db (tx, clock)) s' := (step_error tx h).symm ▸ hr

/-- An execution goes on after its transaction, or after the error of it. -/
theorem go_ok (he : e ∈ s.executions) (h : tx.run env clock s.db = .ok db') (hg : e.Goes e') :
    s.Rest (Python.step env s.db (tx, clock)) ({ s with db := db' }.update e') :=
      ok_rest h (.go e e' he hg)

theorem go_error (he : e ∈ s.executions) (h : tx.run env clock s.db = .error x) (hg : e.Goes e') :
    s.Rest (Python.step env s.db (tx, clock)) (s.update e') := error_rest h (.go e e' he hg)

end

/-- The program points of `_execute`, one transaction each. -/
theorem next_rest (he : e ∈ s.executions) (clock : Clock) :
    s.Rest ((e.transaction.map fun tx => (tx, clock)).elim s.db (Python.step env s.db))
      (s.next env e clock) := by
  have hfinish : (∀ c, e.phase ≠ .calling c) → e.Goes e.finish :=
    Execution.goes_finish e.size e.sha256
  unfold next Execution.transaction
  cases hp : e.phase with
  | ready =>
    dsimp only [Option.map, Option.elim]
    split
    · exact .go e _ he (Execution.goes_dispatch env _ _ hp)
    · exact .go e _ he e.goes_raised
  | overdue =>
    dsimp only [Option.map, Option.elim]
    split
    · next h => exact go_ok he (run_of_map h) (hfinish (by simp [hp]))
    · next h => exact go_error he (run_of_error h) e.goes_raised
  | checking =>
    dsimp only [Option.map, Option.elim]
    split
    · refine .go e { e with phase := .due } he
        (Execution.goes_phase _ _ (by simp [hp]) (fun h => ?_) ?_ (by simp))
      · have := h.phase
        rw [hp] at this
        exact this.1
      · simp [hp, Phase.early]
    · exact .go e _ he (hfinish (by simp [hp]))
    · exact .go e _ he e.goes_raised
  | due | calling c => exact .same
  | returned c o =>
    dsimp only [Option.map, Option.elim]
    split
    · next h => exact go_ok he (run_of_map h) (hfinish (by simp [hp]))
    · next h =>
      refine go_ok he (run_of_map h) ?_
      split
      · refine Execution.goes_phase _ _ (by simp [hp]) (fun h => ?_) (by simp [Phase.early])
          (by simp)
        have := h.phase
        rw [hp] at this
        exact this.1
      · exact hfinish (by simp [hp])
    · next h => exact go_error he (run_of_error h) e.goes_raised
  | lost =>
    dsimp only [Option.map, Option.elim]
    split
    · next h => exact go_ok he h (hfinish (by simp [hp]))
    · next h => exact go_error he h e.goes_raised
  | handling f =>
    have hgoes := hfinish (by simp [hp])
    dsimp only
    unfold handleFailure
    split_ifs with h1 h2
    · dsimp only [Option.map, Option.elim]
      cases h : commit env e.attempt (.uploading none) clock s.db with
      | ok r => exact go_ok he (run_of_map h) hgoes
      | error x => exact go_error he (run_of_error h) hgoes
    · exact .go e _ he hgoes
    · dsimp only [Option.map, Option.elim]
      cases h : commit env e.attempt (.failed f.code) clock s.db with
      | ok r => exact go_ok he (run_of_map h) hgoes
      | error x => exact go_error he (run_of_error h) hgoes
  | recovering => exact .go e _ he (hfinish (by simp [hp]))
  | settling | abandoning =>
    dsimp only [Option.map, Option.elim]
    split
    · next h =>
      exact go_ok he h
        (Execution.goes_phase _ _ (by simp [hp]) (fun _ => trivial) (by simp [Phase.early])
        (by simp))
    · next h => exact error_rest h (.leave e.id)
  | releasing => exact .leave e.id

theorem beginCall_rest (he : e ∈ s.executions) (hp : e.phase = .due) :
    s.Rest s.db (s.beginCall e) := by
  unfold beginCall
  dsimp only
  split
  · rename_i hs
    exact .begin e .cleanup he hp (by rw [hs]; rfl)
  · rename_i hs
    exact .begin e .start he hp (by rw [hs]; rfl)
  · rename_i hs
    split
    · exact .begin e .complete he hp (by rw [hs]; rfl)
    · -- The upload handle is missing: there is no call to wait for.
      have hdue : e.Coherent → e.resolved = true := fun h => by
        have := h.phase
        rwa [hp] at this
      exact .go e { e with resolved := true, phase := .handling .missing } he
        ⟨rfl, rfl, rfl, fun h => ⟨h.worked, rfl⟩,
          fun h _ => hdue h, by simp [hp], by simp [Phase.early], by simp⟩
  · rename_i hs
    split
    · exact .begin e .verify he hp (by rw [hs]; rfl)
    · exact .go e _ he e.goes_raised
  · exact .same

theorem outcome_follows {result : CallResult} {o : Outcome} (h : e.outcome result = some o) :
    Follows e.attempt.state o.state := by
  unfold Execution.outcome at h
  cases result <;> simp only [Option.ite_none_right_eq_some, Option.some.injEq, reduceCtorEq] at h
  all_goals
    obtain ⟨hs, rfl⟩ := h
    rw [hs]
  case started => exact .started
  case completed => exact .completed
  case verified => exact .verified
  case cleaned => exact .cleaned

theorem callReturns_rest {c : Nat} (he : e ∈ s.executions) (hp : e.phase = .calling c)
    (result : CallResult) : s.Rest s.db (s.callReturns e c result) := by
  unfold callReturns
  split
  · rename_i f
    exact .fail e c f he hp
  · split
    · rename_i o ho
      exact .answer e c o he hp (outcome_follows ho)
    · exact .same

theorem raise_rest (he : e ∈ s.executions) : s.Rest s.db (s.raise e) := by
  unfold raise
  split
  · rename_i f hp
    exact .go e _ he (Execution.goes_finish _ _ (by simp [hp]))
  · rename_i hp
    exact .go e _ he (Execution.goes_finish _ _ (by simp [hp]))
  · exact .leave e.id
  · exact .leave e.id
  · exact .leave e.id
  · exact .go e _ he e.goes_raised

/-- The executions that `initiate` and `complete` enter. -/
theorem enter_rest {env : Env} {s : Sys} {clock : Clock} {x : Except Error (Db × Next)} {now : Time}
    (tx : Tx) (hx : tx.run env clock s.db = x.map (·.1))
    (hspawn : ∀ db' a, x = .ok (db', .execute a) → Spawned s.db.ledger db'.ledger a now) :
    s.Rest (Python.step env s.db (tx, clock)) (s.enter now x) := by
  unfold enter
  split
  · next db' a => exact ok_rest hx (.spawn a now (hspawn db' a rfl))
  · exact ok_rest hx .same
  · exact error_rest hx .same

/-- A step of a participant that is gone does nothing. -/
theorem elim_rest {α : Type} {o : Option α} {f : α → Sys} {tx : α → Option (Tx × Clock)}
    (h : ∀ x, o = some x → s.Rest ((tx x).elim s.db (Python.step env s.db)) (f x)) :
    s.Rest ((o.bind tx).elim s.db (Python.step env s.db)) (o.elim s f) := by
  cases o with
  | none => exact .same
  | some x => exact h x rfl

theorem elim_quiet {α : Type} {o : Option α} {f : α → Sys}
    (h : ∀ x, o = some x → s.Rest s.db (f x)) :
    s.Rest s.db (o.elim s f) := by
  cases o with
  | none => exact .same
  | some x => exact h x rfl

/-- **A step is its transaction and a move of one participant.** -/
theorem act_rest (a : Action) : s.Rest (s.after env a) (s.act env a) := by
  cases a with
  | command p c clock | exposeDownload p r b expiry clock | expire id clock
  | repair ids stopped quiesced clock =>
    exact s.commitTx_rest env clock _
  | initiate p r b clock => exact enter_rest (.initiate p r b) rfl fun _ _ h => initiate_spawned h
  | completeUpload p r b clock =>
    exact enter_rest (.completeUpload p r b) rfl fun _ _ h => complete_spawned h
  | process id cleanup clock =>
    show s.Rest (Python.step env s.db (.acquire id cleanup, clock)) _
    unfold act
    dsimp only
    split
    · next h => exact ok_rest (run_of_map h) (.spawn _ (clock 0) (acquire_spawned h))
    · next h => exact ok_rest (run_of_map h) .same
    · next h => exact error_rest (run_of_error h) .same
  | next id clock => exact s.elim_rest env fun e he => s.next_rest env (execution_mem he) clock
  | call id =>
    refine s.elim_quiet fun e he => ?_
    split_ifs with hp
    · exact s.beginCall_rest (execution_mem he) hp
    · exact .same
  | returns id result =>
    refine s.elim_quiet fun e he => ?_
    split
    · rename_i c hp
      exact s.callReturns_rest (execution_mem he) hp result
    · exact .same
  | heartbeat id clock =>
    refine s.elim_rest env fun e he => ?_
    split_ifs
    · exact s.commitTx_rest env clock (.heartbeat e.attempt)
    · exact .same
  | raise id => exact s.elim_quiet fun e he => s.raise_rest (execution_mem he)
  | crash id => exact .leave id
  | callEnds id => exact .callEnds id
  | signGrants p r b numbers clock =>
    unfold after transaction act
    dsimp only [Option.elim]
    split
    · exact .sign _
    · exact .same
  | exposeGrants id expiry expiries clock =>
    show s.Rest (((s.signing id).map _).elim s.db (Python.step env s.db)) _
    rw [Option.map_eq_bind]
    refine s.elim_rest env fun g hg => ?_
    unfold Sys.exposeGrants
    dsimp only [Function.comp_apply, Option.elim]
    split
    · next h => exact ok_rest h (.exposeGrants g (expiry :: expiries) (exposeGrants_exposed h))
    · next h => exact error_rest h (.dropSigning g.id)
  | admitPut p r b part clock =>
    show s.Rest (Python.step env s.db (.admitPut p r b part, clock)) _
    unfold act
    dsimp only
    split
    · next h => exact ok_rest (run_of_map h) (.admitPut _ rfl rfl (admission_marked h))
    · next h => exact error_rest (run_of_error h) .same
  | exposePut id expiry clock =>
    refine s.elim_rest env fun p hp => ?_
    unfold Sys.exposePut
    by_cases hph : p.phase = .admitted
    · rw [if_pos hph, if_neg (not_not.mpr hph)]
      dsimp only [Option.elim]
      split
      · next h => exact ok_rest h (.exposePut p expiry (put_mem hp) hph (exposePut_exposed h))
      · next h => exact error_rest h (.leavePut p.id)
    · rw [if_neg hph, if_pos hph]
      exact .same
  | startPut id =>
    refine s.elim_quiet fun p hp => ?_
    unfold Sys.startPut
    split_ifs with hph
    · exact .same
    · exact .startPut p (put_mem hp) (not_not.mp hph)
  | putReturns id certain =>
    refine s.elim_quiet fun p hp => ?_
    unfold Sys.putReturns
    split
    · rename_i c hph
      split_ifs
      · exact .putEnds p c (put_mem hp) hph
      · exact .leavePut p.id
    · exact .same
  | finishPut id clock =>
    refine s.elim_rest env fun p hp => ?_
    unfold Sys.finishPut
    by_cases hph : p.phase = .ended
    · rw [if_pos hph, if_neg (not_not.mpr hph)]
      dsimp only [Option.elim]
      split
      · next h => exact ok_rest (run_of_map h) (.leavePut p.id)
      · next h => exact error_rest (run_of_error h) .same
    · rw [if_neg hph, if_pos hph]
      exact .same
  | dropPut id => exact .leavePut id
  | selectPruned operations attempts clock =>
    refine .selectPruned _ fun id hid => ?_
    obtain ⟨x, hx, rfl⟩ := List.mem_map.mp hid
    obtain ⟨hx, hp⟩ := List.mem_filter.mp hx
    simp only [Bool.and_eq_true, prunable, decide_eq_true_eq] at hp
    exact ⟨x, hx, rfl, hp.1.1.1, hp.1.2⟩
  | prune id clock =>
    show s.Rest (((s.pruning id).map _).elim s.db (Python.step env s.db)) _
    rw [Option.map_eq_bind]
    exact s.elim_rest env fun p _ => .leavePruning id
  | pruneEvents ids clock => exact s.commitTx_rest env clock (.pruneEvents ids)

/-- **The database of the system moves by transactions alone.** -/
theorem step_db (a : Action) : (s.step env a).db = s.after env a := (s.act_rest env a).db_eq

end Sys

end Hf2l.Exchange.Python
