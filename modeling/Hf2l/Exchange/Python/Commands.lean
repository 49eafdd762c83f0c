import Hf2l.Exchange.Service.Command

/-!
# `Hf2l.Exchange.Python.Commands`: the commands of `application.py`

The dialect of the Python service, and its commands by their names in the source.
-/

set_option autoImplicit false

namespace Hf2l.Exchange.Python

/-- The Python service. A kind without a policy is an attribute of `None`. -/
def dialect : Dialect where
  rule := ReleaseRule.python
  profiles := getProfile
  policyMissing := Error.internal
  policyMissingAtPublish := Error.internal
  exceeds used amount limit := used + amount > limit
  exceeds_sound used amount limit h := by simpa using h
  bytesExceed space amount := space.allocated + space.reclaiming + amount > space.quotaBytes
  bytesExceed_sound space amount h := by simpa using h

/-- `create_record`. -/
def createRecord := Service.createRecord dialect

/-- `patch_record`. -/
def patchRecord := Service.patchRecord dialect

/-- `publish_record`. -/
def publishRecord := Service.publishRecord dialect

/-- `release`. -/
def release := Service.release dialect

/-- `withdraw_record`. -/
def withdrawRecord := Service.withdrawRecord dialect

/-- `purge_record`. -/
def purgeRecord := Service.purgeRecord

/-- `put_reference`. -/
def putReference := Service.putReference dialect

/-- `acquire`. -/
def acquire := Service.acquire dialect

/-- `renew`. -/
def renew := Service.renew

/-- `abandon`. -/
def abandon := Service.abandon

/-- `complete`. -/
def complete := Service.complete dialect

/-- `enable_managed_space`. -/
def enableManagedSpace := Service.enableManagedSpace

/-- `retire_managed_space`. -/
def retireManagedSpace := Service.retireManagedSpace dialect

/-- `create_workload_grant`. -/
def createWorkloadGrant := Service.createWorkloadGrant

/-- `revoke_workload_grants`. -/
def revokeWorkloadGrants := Service.revokeWorkloadGrants

/-- `update_space_limits`. -/
def updateSpaceLimits := Service.updateSpaceLimits

/-- `put_member`. -/
def putMember := Service.putMember dialect

/-- `register_type`. -/
def registerType := Service.registerType dialect

/-- `put_policy`. -/
def putPolicy := Service.putPolicy dialect

end Hf2l.Exchange.Python
