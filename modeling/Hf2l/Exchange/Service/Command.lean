import Hf2l.Exchange.Service.Coordination
import Hf2l.Exchange.Service.Spaces

/-!
# `Hf2l.Exchange.Service.Command`: the commands as data

`Command` names a command with its arguments, and `Command.run` carries it out. The systems
of the two services take their steps from it.
-/

set_option autoImplicit false

namespace Hf2l.Exchange

/-- The commands of `Service` that write. -/
inductive Command where
  | createRecord (body : RecordBody) (key : String)
  | patchRecord (recordId : Id) (metadata : Json) (expectedVersion : String)
  | publishRecord (recordId : Id) (key : String)
  | withdrawRecord (recordId : Id)
  | purgeRecord (recordId : Id)
  | putReference (name : String) (recordId : Id) (expectedToken key : String)
  | acquire (body : AcquisitionBody) (key : String)
  | renew (attemptId : Id) (fence : Nat)
  | abandon (attemptId : Id) (fence : Nat)
  | complete (attemptId : Id) (body : CompletionBody) (key : String)
  | enableManagedSpace (jobId : String) (foreign : Bool) (key : String)
  | retireManagedSpace (jobId key : String)
  | createWorkloadGrant (body : WorkloadGrantBody) (key : String)
  | revokeWorkloadGrants (attemptId key : String)
  | updateSpaceLimits (body : LimitsBody)
  | putMember (memberId : Id) (body : MemberBody)
  | registerType (kind : String) (body : TypeBody) (key : String)
  | putPolicy (kind : String) (body : PolicyBody)

/-- The transaction of a command. -/
def Command.run (d : Dialect) (env : Env) (p : Principal) (clock : Clock) (db : Db) :
    Command → Except Error (Db × Response)
  | .createRecord body key => Service.createRecord d env p body key clock db
  | .patchRecord id metadata version => Service.patchRecord d env p id metadata version clock db
  | .publishRecord id key => Service.publishRecord d env p id key clock db
  | .withdrawRecord id => Service.withdrawRecord d env p id clock db
  | .purgeRecord id => Service.purgeRecord env p id clock db
  | .putReference name id token key => Service.putReference d env p name id token key clock db
  | .acquire body key => Service.acquire d env p body key clock db
  | .renew id fence => Service.renew env p id fence clock db
  | .abandon id fence => Service.abandon env p id fence clock db
  | .complete id body key => Service.complete d env p id body key clock db
  | .enableManagedSpace job foreign key => Service.enableManagedSpace env p job foreign key clock db
  | .retireManagedSpace job key => Service.retireManagedSpace d env p job key clock db
  | .createWorkloadGrant body key => Service.createWorkloadGrant env p body key clock db
  | .revokeWorkloadGrants attempt key => Service.revokeWorkloadGrants env p attempt key clock db
  | .updateSpaceLimits body => Service.updateSpaceLimits env p body clock db
  | .putMember id body => Service.putMember d env p id body clock db
  | .registerType kind body key => Service.registerType d env p kind body key clock db
  | .putPolicy kind body => Service.putPolicy d env p kind body clock db

/-! ### A small deployment

Settings, a principal and clocks with which runs are evaluated. -/

namespace Sample

def env : Env where
  workloadsEnabled := false
  workloadIssuer := ""
  provisioningPrincipalIds := []
  downloadBrokerPrincipalIds := []
  storageRoot := ""
  grantSeconds := 900
  partSize := 8388608
  leaseSeconds := 60
  failureSeconds := 86400
  recoverAfter := 60
  operationRetentionSeconds := 1000000
  eventRetentionSeconds := 1000000
  draftSeconds := 3600
  coordinationSeconds := 300
  canonicalLength _ := 2
  schemaWellFormed _ := true
  schemaAccepts _ _ := true
  casefold s := s
  digest _ := ""
  boundPrincipalId _ s := s
  grantId a b := a ++ b

def owner : Principal := ⟨"owner", "owner", none⟩

/-- Room for one attachment of ten bytes. -/
def limits : Limits := ⟨10, 100, 10, 100, by decide⟩

/-- A clock that stands still during a transaction. -/
def still (t : Time) : Clock := fun _ => t

def sha256 : String := "0000000000000000000000000000000000000000000000000000000000000000"

end Sample

end Hf2l.Exchange
