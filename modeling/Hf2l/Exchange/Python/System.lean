import Hf2l.Exchange.Python.Transfers

/-!
# `Hf2l.Exchange.Python.System`: processes, provider calls and the database

The state of the running exchange: the database of a space, the executions of transfer attempts
(`_execute`) in API processes and workers, the PUTs of the gateway, and every call that was made to
the storage provider. `prune` reads rows and deletes them later, without the lock of the space that
the other transactions begin with, so it is two steps. A step is one transaction of one participant,
the start, the return or the end of one provider call, an exception, or a crash. Any sequence of
steps is a run, so transactions of different executions interleave freely.

`Phase` has the program points of `_execute` between which it can be interrupted. A process
that crashes runs no handler: its execution is gone, and a call it had started goes on until
the provider ends it.

`tick`, `calls` and `issued` are a log of what happened. No step reads them.
-/

set_option autoImplicit false

namespace Hf2l.Exchange.Python

open Lib
open Attempts
open Transfers

/-! ### Transactions -/

/-- Every transaction that writes. -/
inductive Tx where
  | command (p : Principal) (c : Command)
  | initiate (p : Principal) (recordId attachmentId : Id)
  | exposeGrants (p : Principal) (request : SigningRequest) (expiry : Time) (expiries : List Time)
  | admitPut (p : Principal) (recordId attachmentId : Id) (part : Nat)
  | exposePut (p : Principal) (h : GatewayPutHandle) (expiry : Time)
  | finishPut (h : GatewayPutHandle)
  | completeUpload (p : Principal) (recordId attachmentId : Id)
  | exposeDownload (p : Principal) (recordId attachmentId : Id) (expiry : Time)
  | acquire (attemptId : Id) (cleanup : Option Bool)
  | heartbeat (attempt : TransferAttempt)
  | releaseLease (attempt : TransferAttempt)
  | commit (attempt : TransferAttempt) (o : Outcome)
  | retry (attempt : TransferAttempt) (code : String)
  | settleMutation (attempt : TransferAttempt)
  | abandon (attempt : TransferAttempt)
  | expire (recordId : Id)
  | repairMutations (ids : List Id) (writersStopped providerQuiesced : Bool)
  | prune (rows : Selection)
  | pruneEvents (ids : List Nat)

/-- The database after a transaction. -/
def Tx.run (env : Env) (clock : Clock) (db : Db) : Tx → Except Error Db
  | .command p c => (c.run dialect env p clock db).map (·.1)
  | .initiate p r b => (Transfers.initiate env p r b clock db).map (·.1)
  | .exposeGrants p request expiry expiries => grants.expose env p request expiry expiries clock db
  | .admitPut p r b part => (beginGatewayPut.admission env p r b part clock db).map (·.1)
  | .exposePut p h expiry => beginGatewayPut.expose env p h expiry clock db
  | .finishPut h => (finishGatewayPut h clock db).map (·.1)
  | .completeUpload p r b => (Transfers.complete env p r b clock db).map (·.1)
  | .exposeDownload p r b expiry => download.expose env p r b expiry clock db
  | .acquire id cleanup => (Transfers.acquire env id cleanup clock db).map (·.1)
  | .heartbeat a => .ok (Attempts.heartbeat env a clock db)
  | .releaseLease a => .ok (Attempts.releaseLease a db)
  | .commit a o => (Transfers.commit env a o clock db).map (·.1)
  | .retry a code => .ok (Attempts.retry a code clock db)
  | .settleMutation a => Transfers.settleMutation a clock db
  | .abandon a => Transfers.abandon a clock db
  | .expire id => Transfers.expire id clock db
  | .repairMutations ids stopped quiesced => Transfers.repairMutations ids stopped quiesced clock db
  | .prune rows => .ok (prune.delete rows db)
  | .pruneEvents ids => .ok (Attempts.pruneEvents ids db)

/-- The database after one transaction of a run. One that fails rolls back. -/
def step (env : Env) (db : Db) (tx : Tx × Clock) : Db :=
  match tx.1.run env tx.2 db with
  | .ok db => db
  | .error _ => db

/-- Any sequence of transactions with any clock readings. -/
def run (env : Env) (db : Db) (txs : List (Tx × Clock)) : Db := txs.foldl (step env) db

/-! ### Executions and provider calls -/

/-- The kinds of calls to the provider. -/
inductive CallKind where
  | start
  | complete
  | verify
  | put
  | cleanup
deriving DecidableEq, Repr

/-- The calls that can create or change objects of the key. -/
def CallKind.mutating : CallKind → Bool
  | .start | .complete | .put => true
  | _ => false

/-- One call to the storage provider: the attempt it is made for, its key and the marker it
is made under. -/
structure Call where
  id : Nat
  kind : CallKind
  attemptId : Id
  key : ObjectKey
  token : Option Token
  startedAt : Nat
  endedAt : Option Nat
deriving DecidableEq, Repr

/-- The program points of `_execute`. -/
inductive Phase where
  /-- Before it reads the attachment. -/
  | ready
  /-- The deadline has passed; a failure is to be committed. -/
  | overdue
  /-- Before the transaction that clears a cleanup. -/
  | checking
  /-- Before the provider call. -/
  | due
  /-- In the provider call. -/
  | calling (call : Nat)
  /-- The call returned; its outcome is to be committed. -/
  | returned (call : Nat) (o : Outcome)
  /-- The commit was refused; the attempt is to be abandoned. -/
  | lost
  /-- In the handler of a storage failure. -/
  | handling (f : StorageFailure)
  /-- In the handler of any other exception. -/
  | recovering
  /-- In the `finally` block, before its three transactions. -/
  | settling
  | abandoning
  | releasing
deriving DecidableEq, Repr

/-- A process in `_execute`: the snapshot it works on, the database time of the transaction
that made it, the size and digest it read, and whether its call is known to have ended. -/
structure Execution where
  id : Nat
  attempt : TransferAttempt
  acquiredAt : Time
  size : Nat := 0
  sha256 : String := ""
  resolved : Bool := true
  phase : Phase := .ready

namespace Execution

/-- `attempt.state in ("initiating", "completing")`. -/
def mutating (e : Execution) : Bool :=
  e.attempt.state = .initiating || e.attempt.state = .completing

/-- Enter the `finally` block. -/
def finish (e : Execution) : Execution :=
  { e with phase := if e.mutating then (if e.resolved then
    .settling else .abandoning) else .releasing }

/-- `except Exception`. -/
def raised (e : Execution) : Execution := { e with resolved := false, phase := .recovering }

/-- The heartbeat runs: `_execute` is inside its `with` block. -/
def beating (e : Execution) : Bool :=
  match e.phase with
  | .ready | .overdue | .checking | .due | .calling _ | .returned _ _ | .lost => true
  | _ => false

/-- Where `_execute` goes after it has read the attachment. -/
def dispatch (env : Env) (e : Execution) (b : Blob) (now : Time) : Execution :=
  let e := { e with size := b.size, sha256 := b.sha256 }
  if deadlinePassed env e.attempt now then { e with phase := .overdue }
  else match e.attempt.state with
    | .cleanup => { e with phase := .checking }
    | .initiating | .completing | .verifying => { e with phase := .due }
    | _ => e.finish

end Execution

/-- The gateway's part in a PUT: the marker is in the ledger, the URL is in the gateway's
hands, the call is in progress, or it has ended for certain. -/
inductive PutPhase where
  | admitted
  | exposed
  | calling (call : Nat)
  | ended
deriving DecidableEq, Repr

/-- A part on its way through the gateway. -/
structure Put where
  id : Nat
  principal : Principal
  handle : GatewayPutHandle
  phase : PutPhase := .admitted

/-- A signed upload URL that left the exchange. -/
structure IssuedUrl where
  attemptId : Id
  expiresAt : Time

/-- Part numbers of `grants` in between its transactions. -/
structure Signing where
  id : Nat
  principal : Principal
  request : SigningRequest

/-- A `prune` between its queries and its deletions. -/
structure Pruning where
  id : Nat
  rows : Selection

/-- The database, and all that runs. -/
structure Sys where
  db : Db
  executions : List Execution := []
  puts : List Put := []
  signings : List Signing := []
  prunings : List Pruning := []
  calls : List Call := []
  issued : List IssuedUrl := []
  tick : Nat := 0

namespace Sys

section
variable (s : Sys)

def execution (id : Nat) : Option Execution := Table.get Execution.id id s.executions

def put (id : Nat) : Option Put := Table.get Put.id id s.puts

def signing (id : Nat) : Option Signing := Table.get Signing.id id s.signings

def pruning (id : Nat) : Option Pruning := Table.get Pruning.id id s.prunings

/-- A new execution of an attempt. -/
def spawn (attempt : TransferAttempt) (now : Time) : Sys :=
  { s with executions := s.executions ++ [{ id := s.tick, attempt, acquiredAt := now }] }

def update (e : Execution) : Sys :=
  { s with executions := Table.put Execution.id e s.executions }

def remove (id : Nat) : Sys :=
  { s with executions := s.executions.filter (·.id ≠ id) }

def updatePut (p : Put) : Sys := { s with puts := Table.put Put.id p s.puts }

def removePut (id : Nat) : Sys := { s with puts := s.puts.filter (·.id ≠ id) }

def removeSigning (id : Nat) : Sys := { s with signings := s.signings.filter (·.id ≠ id) }

/-- A provider call begins. Its identifier is the tick. -/
def startCall (kind : CallKind) (attemptId : Id) (key : ObjectKey) (token : Option Token) : Sys :=
  { s with calls := s.calls ++ [⟨s.tick, kind, attemptId, key, token, s.tick, none⟩] }

/-- The provider ends a call, if it has not ended yet. -/
def endCall (id : Nat) : Sys :=
  { s with calls := s.calls.map fun c =>
      if c.id = id ∧ c.endedAt = none then { c with endedAt := some s.tick } else c }

def issue (attemptId : Id) (expiries : List Time) : Sys :=
  { s with issued := s.issued ++ expiries.map fun t => ⟨attemptId, t⟩ }

end

end Sys

/-- What a provider call returns. -/
inductive CallResult where
  | started (uploadId : String)
  | completed (version : String)
  | verified
  | cleaned
  | failed (f : StorageFailure)
deriving DecidableEq, Repr

/-- The outcome `_execute` commits for a result of its call. -/
def Execution.outcome (e : Execution) : CallResult → Option Outcome
  | .started uploadId =>
    if e.attempt.state = .initiating then
      some (.uploading (some { id := some uploadId, key := some e.attempt.objectKey })) else none
  | .completed version => if e.attempt.state = .completing then some (.verifying version) else none
  | .verified => if e.attempt.state = .verifying then some (.verified e.size e.sha256) else none
  | .cleaned => if e.attempt.state = .cleanup then some .cleaned else none
  | .failed _ => none

/-- The call of the execution returns or raises. A certain outcome means that it has ended. -/
def Sys.callReturns (s : Sys) (e : Execution) (call : Nat) (result : CallResult) : Sys :=
  match result with
  | .failed f =>
    (if f.uncertain then s else s.endCall call).update
      { e with resolved := !f.uncertain, phase := .handling f }
  | result =>
    match e.outcome result with
    | some o => (s.endCall call).update { e with phase := .returned call o }
    | none => s

/-- The provider call of an execution that is due. -/
def Sys.beginCall (s : Sys) (e : Execution) : Sys :=
  let begin (kind : CallKind) : Sys :=
    (s.startCall kind e.attempt.id e.attempt.objectKey e.attempt.token).update
      { e with phase := .calling s.tick }
  match e.attempt.state with
  | .cleanup => begin .cleanup
  | .initiating => begin .start
  | .completing =>
    match upload e.attempt with
    | .ok _ => begin .complete
    | .error _ => s.update { e with resolved := true, phase := .handling .missing }
  | .verifying =>
    match e.attempt.uploadHandle.version with
    | some _ => begin .verify
    | none => s.update e.raised
  | _ => s

/-- The transaction in the handler of a storage failure. -/
def handleFailure (env : Env) (e : Execution) (f : StorageFailure) (clock : Clock) (db : Db) :
    Except Error Db :=
  if f = .invalidParts ∧ e.attempt.state = .completing then
    (commit env e.attempt (.uploading none) clock db).map (·.1)
  else if f.retryable = true ∨ e.attempt.state = .cleanup then .ok (retry e.attempt f.code clock db)
  else (commit env e.attempt (.failed f.code) clock db).map (·.1)

/-- The next transaction of an execution. -/
def Sys.next (env : Env) (s : Sys) (e : Execution) (clock : Clock) : Sys :=
  match e.phase with
  | .ready =>
    match s.db.ledger.blob e.attempt.blobId with
    | some b => s.update (e.dispatch env b (clock 0))
    | none => s.update e.raised
  | .overdue =>
    match commit env e.attempt (.failed "transfer_deadline_exceeded") clock s.db with
    | .ok (db, _) => { s with db }.update e.finish
    | .error _ => s.update e.raised
  | .checking =>
    match cleanupAllowed e.attempt clock s.db with
    | .ok true => s.update { e with phase := .due }
    | .ok false => s.update e.finish
    | .error _ => s.update e.raised
  | .returned _ o =>
    match commit env e.attempt o clock s.db with
    | .ok (db, true) => { s with db }.update e.finish
    | .ok (db, false) =>
      { s with db }.update (if e.mutating then { e with phase := .lost } else e.finish)
    | .error _ => s.update e.raised
  | .lost =>
    match Transfers.abandon e.attempt clock s.db with
    | .ok db => { s with db }.update e.finish
    | .error _ => s.update e.raised
  | .handling f =>
    match handleFailure env e f clock s.db with
    | .ok db => { s with db }.update e.finish
    | .error _ => s.update e.finish
  | .recovering =>
    { s with db := retry e.attempt "internal_transfer_error" clock s.db }.update e.finish
  | .settling =>
    match settleMutation e.attempt clock s.db with
    | .ok db => { s with db }.update { e with phase := .abandoning }
    | .error _ => s.remove e.id
  | .abandoning =>
    match Transfers.abandon e.attempt clock s.db with
    | .ok db => { s with db }.update { e with phase := .releasing }
    | .error _ => s.remove e.id
  | .releasing => { s with db := releaseLease e.attempt s.db }.remove e.id
  | .due => s
  | .calling _ => s

/-- An exception at the program point of the execution: the handler, the `finally` block or
the caller takes over. -/
def Sys.raise (s : Sys) (e : Execution) : Sys :=
  match e.phase with
  | .handling _ | .recovering => s.update e.finish
  | .settling | .abandoning | .releasing => s.remove e.id
  | _ => s.update e.raised

/-! ### Steps -/

/-- What happens next in the system. -/
inductive Action where
  | command (p : Principal) (c : Command) (clock : Clock)
  | initiate (p : Principal) (recordId attachmentId : Id) (clock : Clock)
  | completeUpload (p : Principal) (recordId attachmentId : Id) (clock : Clock)
  | process (attemptId : Id) (cleanup : Option Bool) (clock : Clock)
  | next (execution : Nat) (clock : Clock)
  | call (execution : Nat)
  | returns (execution : Nat) (result : CallResult)
  | heartbeat (execution : Nat) (clock : Clock)
  | raise (execution : Nat)
  | crash (execution : Nat)
  | callEnds (call : Nat)
  | signGrants (p : Principal) (recordId attachmentId : Id) (numbers : List Nat) (clock : Clock)
  | exposeGrants (signing : Nat) (expiry : Time) (expiries : List Time) (clock : Clock)
  | exposeDownload (p : Principal) (recordId attachmentId : Id) (expiry : Time) (clock : Clock)
  | admitPut (p : Principal) (recordId attachmentId : Id) (part : Nat) (clock : Clock)
  | exposePut (put : Nat) (expiry : Time) (clock : Clock)
  | startPut (put : Nat)
  | putReturns (put : Nat) (certain : Bool)
  | finishPut (put : Nat) (clock : Clock)
  | dropPut (put : Nat)
  | expire (recordId : Id) (clock : Clock)
  | repair (ids : List Id) (writersStopped providerQuiesced : Bool) (clock : Clock)
  | selectPruned (operations : Operation → Bool) (attempts : TransferAttempt → Bool) (clock : Clock)
  | prune (pruning : Nat) (clock : Clock)
  | pruneEvents (ids : List Nat) (clock : Clock)

/-- The database after a transaction, or as it was if the transaction failed. -/
def Sys.commitTx (env : Env) (s : Sys) (clock : Clock) (tx : Tx) : Sys :=
  match tx.run env clock s.db with
  | .ok db => { s with db }
  | .error _ => s

/-- The executions that `initiate` and `complete` enter after their first transaction. -/
def Sys.enter (s : Sys) (now : Time) : Except Error (Db × Next) → Sys
  | .ok (db, .execute attempt) => { s with db }.spawn attempt now
  | .ok (db, .answer _) => { s with db }
  | .error _ => s

/-- The steps of the gateway for one PUT. -/
def Sys.exposePut (env : Env) (s : Sys) (p : Put) (expiry : Time) (clock : Clock) : Sys :=
  if p.phase ≠ .admitted then s
  else match beginGatewayPut.expose env p.principal p.handle expiry clock s.db with
    | .ok db =>
      ({ s with db }.updatePut { p with phase := .exposed }).issue p.handle.attemptId [expiry]
    | .error _ => s.removePut p.id

def Sys.startPut (s : Sys) (p : Put) : Sys :=
  if p.phase ≠ .exposed then s
  else (s.startCall .put p.handle.attemptId p.handle.objectKey (some p.handle.token)).updatePut
    { p with phase := .calling s.tick }

/-- An ambiguous outcome is no proof that the PUT has ended: its marker is never settled. -/
def Sys.putReturns (s : Sys) (p : Put) (certain : Bool) : Sys :=
  match p.phase with
  | .calling c =>
    if certain then (s.endCall c).updatePut { p with phase := .ended } else s.removePut p.id
  | _ => s

def Sys.finishPut (s : Sys) (p : Put) (clock : Clock) : Sys :=
  if p.phase ≠ .ended then s
  else match finishGatewayPut p.handle clock s.db with
    | .ok (db, _) => { s with db }.removePut p.id
    | .error _ => s

section
variable (env : Env) (s : Sys)

/-- The second part of `grants`, for the URLs that were signed. -/
def Sys.exposeGrants (g : Signing) (expiry : Time) (expiries : List Time) (clock : Clock) : Sys :=
  match grants.expose env g.principal g.request expiry expiries clock s.db with
  | .ok db => ({ s with db }.removeSigning g.id).issue g.request.attemptId (expiry :: expiries)
  | .error _ => s.removeSigning g.id

/-- One step without the passage of the tick. A step that does not apply changes nothing. -/
def Sys.act : Action → Sys
  | .command p c clock => s.commitTx env clock (.command p c)
  | .initiate p r b clock => s.enter (clock 1) (Transfers.initiate env p r b clock s.db)
  | .completeUpload p r b clock => s.enter (clock 1) (Transfers.complete env p r b clock s.db)
  | .process id cleanup clock =>
    match Transfers.acquire env id cleanup clock s.db with
    | .ok (db, some attempt) => { s with db }.spawn attempt (clock 0)
    | .ok (db, none) => { s with db }
    | .error _ => s
  | .next id clock => (s.execution id).elim s (s.next env · clock)
  | .call id => (s.execution id).elim s fun e => if e.phase = .due then s.beginCall e else s
  | .returns id result => (s.execution id).elim s fun e =>
    match e.phase with
    | .calling c => s.callReturns e c result
    | _ => s
  | .heartbeat id clock => (s.execution id).elim s fun e =>
    if e.beating then s.commitTx env clock (.heartbeat e.attempt) else s
  | .raise id => (s.execution id).elim s s.raise
  | .crash id => s.remove id
  | .callEnds id => s.endCall id
  | .signGrants p r b numbers clock =>
    match grants.prepare env p r b numbers clock s.db with
    | .ok request => { s with signings := s.signings ++ [⟨s.tick, p, request⟩] }
    | .error _ => s
  | .exposeGrants id expiry expiries clock =>
    (s.signing id).elim s (s.exposeGrants env · expiry expiries clock)
  | .exposeDownload p r b expiry clock => s.commitTx env clock (.exposeDownload p r b expiry)
  | .admitPut p r b part clock =>
    match beginGatewayPut.admission env p r b part clock s.db with
    | .ok (db, handle) =>
      { s with db, puts := s.puts ++ [{ id := s.tick, principal := p, handle }] }
    | .error _ => s
  | .exposePut id expiry clock => (s.put id).elim s (s.exposePut env · expiry clock)
  | .startPut id => (s.put id).elim s s.startPut
  | .putReturns id certain => (s.put id).elim s (s.putReturns · certain)
  | .finishPut id clock => (s.put id).elim s (s.finishPut · clock)
  | .dropPut id => s.removePut id
  | .expire id clock => s.commitTx env clock (.expire id)
  | .repair ids stopped quiesced clock =>
    s.commitTx env clock (.repairMutations ids stopped quiesced)
  | .selectPruned operations attempts clock =>
    { s with prunings := s.prunings ++ [⟨s.tick,
      prune.select env operations attempts (clock 0) s.db⟩] }
  | .prune id _ => (s.pruning id).elim s fun p =>
    { s with db := prune.delete p.rows s.db, prunings := s.prunings.filter (·.id ≠ id) }
  | .pruneEvents ids clock => s.commitTx env clock (.pruneEvents ids)

/-- The system after an action. -/
def Sys.step (a : Action) : Sys := { s.act env a with tick := s.tick + 1 }

/-- The system after a list of actions. -/
def Sys.run (actions : List Action) : Sys := actions.foldl (Sys.step env) s

end

/-- A new space, before any process has started. -/
def Sys.created (spaceId profile : String) (limits : Limits) (creator : Principal) (now : Time) :
    Sys where
  db := Db.created spaceId profile limits creator now

/-! ### A small deployment -/

namespace Sample

open Exchange.Sample

def start : Sys := Sys.created "space" "generic.v1" limits owner 0

def registerType : Action :=
  .command owner (.registerType "note" { schema := .obj [] } "type") (still 0)

/-- A draft with one attachment of ten bytes. -/
def createRecord (key : String) (t : Time) : Action :=
  .command owner (.createRecord ⟨"note", "0", .obj [], [⟨"a", 10, sha256, "x"⟩]⟩ key) (still t)

/-- An upload whose `start` call is in progress: record `1`, attachment `2`, attempt `3`, and
execution 2. -/
def uploadStarts : List Action :=
  [registerType, createRecord "first" 0, .initiate owner "1" "2" (still 1), .next 2 (still 1),
    .call 2]

end Sample

end Hf2l.Exchange.Python
