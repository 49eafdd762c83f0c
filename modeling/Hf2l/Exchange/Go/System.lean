import Hf2l.Exchange.Go.Transfers

/-!
# `Hf2l.Exchange.Go.System`: runs of the Go service

Every transaction of the Go service as a value of `Tx`. A run is any sequence of transactions
with any clock readings. The transactions of an execution carry a snapshot of their attempt,
and here it is arbitrary: the runs include every interleaving of executions, in any order and
after any crash.
-/

set_option autoImplicit false

namespace Hf2l.Exchange.Go

open Attempts

/-- Every transaction that writes. -/
inductive Tx where
  | command (p : Principal) (c : Command)
  | initiate (p : Principal) (recordId attachmentId : Id)
  | exposeGrants (p : Principal) (request : SigningRequest) (expiries : List Time)
  | admitPut (p : Principal) (recordId attachmentId : Id) (part : Nat)
  | exposePut (p : Principal) (h : GatewayPutHandle) (expiry : Time)
  | finishPut (h : GatewayPutHandle)
  | completeUpload (p : Principal) (recordId attachmentId : Id)
  | exposeDownload (p : Principal) (recordId attachmentId : Id) (expiry : Time)
  | acquire (attemptId : Id) (cleanup : Option Bool)
  | heartbeat (attempt : TransferAttempt)
  | releaseLease (attempt : TransferAttempt)
  | commit (attempt : TransferAttempt) (o : Outcome)
  | retry (attempt : TransferAttempt) (code : String)
  | settleMutation (attempt : TransferAttempt)
  | abandon (attempt : TransferAttempt)
  | expire (recordId : Id)
  | repairMutations (ids : List Id) (writersStopped providerQuiesced : Bool)
  | prune (operations : Operation → Bool) (attempts : TransferAttempt → Bool)
  | pruneEvents (ids : List Nat)

/-- The database after a transaction. -/
def Tx.run (env : Env) (clock : Clock) (db : Db) : Tx → Except Error Db
  | .command p c => (c.run dialect env p clock db).map (·.1)
  | .initiate p r b => (Transfers.initiate env p r b clock db).map (·.1)
  | .exposeGrants p request expiries => Transfers.grants.expose env p request expiries clock db
  | .admitPut p r b part => (Transfers.beginGatewayPut.admission env p r b part clock db).map (·.1)
  | .exposePut p h expiry => Transfers.beginGatewayPut.expose env p h expiry clock db
  | .finishPut h => (Transfers.finishGatewayPut h clock db).map (·.1)
  | .completeUpload p r b => (Transfers.complete env p r b clock db).map (·.1)
  | .exposeDownload p r b expiry => Transfers.download.expose env p r b expiry clock db
  | .acquire id cleanup => (Transfers.acquire env id cleanup clock db).map (·.1)
  | .heartbeat a => .ok (Attempts.heartbeat env a clock db)
  | .releaseLease a => .ok (Attempts.releaseLease a db)
  | .commit a o => (Transfers.commit env a o clock db).map (·.1)
  | .retry a code => .ok (Transfers.retry a code clock db)
  | .settleMutation a => Transfers.settleMutation a clock db
  | .abandon a => Transfers.abandon a clock db
  | .expire id => .ok (Transfers.expire id clock db)
  | .repairMutations ids stopped quiesced => Transfers.repairMutations ids stopped quiesced clock db
  | .prune operations attempts => .ok (Attempts.prune env operations attempts clock db)
  | .pruneEvents ids => .ok (Attempts.pruneEvents ids db)

/-- The database after one transaction of a run. One that fails rolls back. -/
def step (env : Env) (db : Db) (tx : Tx × Clock) : Db :=
  match tx.1.run env tx.2 db with
  | .ok db => db
  | .error _ => db

/-- The database after a list of transactions. -/
def run (env : Env) (db : Db) (txs : List (Tx × Clock)) : Db := txs.foldl (step env) db

end Hf2l.Exchange.Go
