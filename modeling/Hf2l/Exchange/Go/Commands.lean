import Hf2l.Exchange.Service.Command

/-!
# `Hf2l.Exchange.Go.Commands`: the commands of `internal/service`

The dialect of the Go service, its FedAvg profile, and its commands by their names in the
source. The clock of a Go transaction is read once for several columns where the Python
service reads it for each; since every reading is arbitrary, the commands cover both.
-/

set_option autoImplicit false

namespace Hf2l.Exchange.Go

/-- `wouldExceed`: a comparison that cannot overflow. -/
def wouldExceed (used amount limit : Int) : Bool :=
  used < 0 || amount < 0 || used > limit || amount > limit - used

theorem wouldExceed_sound (used amount limit : Int) (h : wouldExceed used amount limit = false) :
    used + amount ≤ limit := by
  simp only [wouldExceed, Bool.or_eq_false_iff, decide_eq_false_iff_not] at h
  omega

/-- `CompletionInputs`: a participant that is not a text is refused here. -/
def completionInputs (result : Descriptor) (frozen : List Descriptor) (referenceName : String) :
    Except Error (List Descriptor) :=
  if referenceName ≠ "main" then .ok frozen else do
    let declared ← found (err 409 "invalid_result_inputs")
      (FedAvg.declaredInputs result.metadata).strings?
    refuse (¬ declared.Nodup) (err 409 "invalid_result_inputs")
    let used ← found (err 409 "result_provenance_mismatch")
      (declared.mapM fun rid => frozen.find? (·.id = rid))
    let participants := used.map fun r => FedAvg.participantText r.creatorBindings
    refuse (participants.any (·.isNone) = true ∨ ¬ participants.Nodup)
      (err 409 "insufficient_participants")
    refuse (used.length < FedAvg.minimumParticipants) (err 409 "insufficient_participants")
    return used

/-- The FedAvg profile of the port. -/
def fedAvg : Profile :=
  { FedAvg.profile with
      completionInputs := completionInputs
      validateReference := FedAvg.validateReferenceWith (err 409 "result_provenance_mismatch") }

/-- `profiles.Get`. -/
def getProfile (name : String) : Except Error Profile :=
  if name = "generic.v1" then .ok Profile.generic
  else if name = "fedavg.v1" then .ok fedAvg
  else .error (err 422 "unknown_profile")

/-- The Go service. -/
def dialect : Dialect where
  rule := ReleaseRule.go
  profiles := getProfile
  policyMissing := err 422 "type_revision_mismatch"
  policyMissingAtPublish := err 404 "type_not_found"
  exceeds := wouldExceed
  exceeds_sound := wouldExceed_sound
  bytesExceed space amount := wouldExceed space.allocated space.reclaiming space.quotaBytes ||
    wouldExceed (space.allocated + space.reclaiming) amount space.quotaBytes
  bytesExceed_sound _ _ h := wouldExceed_sound _ _ _ (Bool.or_eq_false_iff.mp h).2

/-- `CreateRecord`. -/
def createRecord := Service.createRecord dialect

/-- `PatchRecord`. -/
def patchRecord := Service.patchRecord dialect

/-- `PublishRecord`. -/
def publishRecord := Service.publishRecord dialect

/-- `ReleaseRecord`. -/
def releaseRecord := Service.release dialect

/-- `WithdrawRecord`. -/
def withdrawRecord := Service.withdrawRecord dialect

/-- `PurgeRecord`. -/
def purgeRecord := Service.purgeRecord

/-- `PutReference`. -/
def putReference := Service.putReference dialect

/-- `Acquire`. -/
def acquire := Service.acquire dialect

/-- `Renew`. -/
def renew := Service.renew

/-- `Abandon`. -/
def abandon := Service.abandon

/-- `Complete`. -/
def complete := Service.complete dialect

/-- `EnableManagedSpace`. -/
def enableManagedSpace := Service.enableManagedSpace

/-- `RetireManagedSpace`. -/
def retireManagedSpace := Service.retireManagedSpace dialect

/-- `CreateWorkloadGrant`. -/
def createWorkloadGrant := Service.createWorkloadGrant

/-- `RevokeWorkloadGrants`. -/
def revokeWorkloadGrants := Service.revokeWorkloadGrants

/-- `UpdateSpaceLimits`. -/
def updateSpaceLimits := Service.updateSpaceLimits

/-- `PutMember`. -/
def putMember := Service.putMember dialect

/-- `RegisterType`. -/
def registerType := Service.registerType dialect

/-- `PutPolicy`. -/
def putPolicy := Service.putPolicy dialect

end Hf2l.Exchange.Go
