import Hf2l.Exchange.Service.Records

/-!
# `Hf2l.Exchange.Service.Spaces`: managed spaces, limits, members and types

The commands by which provisioning principals and administrators run a space: creating it,
binding it to a job and retiring it, granting workloads access and revoking it, and changing limits,
members, types and policies.
-/

set_option autoImplicit false

namespace Hf2l.Exchange.Service

open Lib

variable (d : Dialect)

/-! ### New spaces -/

/-- The limits of a new space. -/
def spaceLimits (body : SpaceBody) : Except Error Limits :=
  if h : ∀ n ∈ [body.quotaBytes, body.principalQuotaBytes, body.quotaRecords,
    body.quotaMetadataBytes], 1 ≤ n ∧ n ≤ maxInt64 then
    .ok ⟨body.quotaBytes, body.principalQuotaBytes, body.quotaRecords, body.quotaMetadataBytes, h⟩
  else .error (err 422 "invalid_quota")

/-- `create_space`. The identifier of the space is a digest of the caller and the key, and
`existing` are the rows under it. `bootstrap` says whether the caller is the bootstrap
administrator. -/
def createSpace (env : Env) (p : Principal) (bootstrap : Bool) (body : SpaceBody)
    (key spaceId : String) (clock : Clock) (existing : Option Db) :
    Except Error (Db × Response) := do
  refuse (p.workload.isSome = true) (err 403 "bootstrap_admin_required")
  refuse (bootstrap = false) (err 403 "bootstrap_admin_required")
  refuse (key = "" ∨ key.length > 128) (err 422 "idempotency_key_required")
  let _ ← d.profiles body.profile
  refuse (body.name = "" ∨ body.name.length > 128) (err 422 "invalid_space_name")
  let db ← match existing with
    | some db => .ok db
    | none =>
      (spaceLimits body).map fun limits => Db.created spaceId body.profile limits p (clock 0)
  let member ← found (err 404 "space_not_found") (db.member p.id)
  refuse (member.roles = []) (err 404 "space_not_found")
  once env db p "space.create" key (.space body) (clock 1) (.ok (db, .space db.ledger.space))

/-! ### Managed spaces -/

/-- `_require_provisioner`. -/
def requireProvisioner (env : Env) (p : Principal) : Except Error Unit :=
  refuse (env.workloadsEnabled = false ∨ p.workload.isSome = true ∨
    p.id ∉ env.provisioningPrincipalIds) (err 403 "provisioning_principal_required")

/-- `1 <= len(text) <= limit`. -/
def boundedText (text : String) (limit : Nat) : Bool := 1 ≤ text.length && text.length ≤ limit

/-- `_managed_state`. -/
def managedState (db : Db) (managed : ManagedSpace) : ManagedView where
  jobId := managed.jobId
  retiredAt := managed.retiredAt
  cleanupPending := managed.retiredAt.isSome &&
    (db.ledger.blobs.any (·.state ≠ .cleaned) || db.ledger.attempts.any (·.mutationTokens ≠ []))

/-- The job is not bound to another space: `foreign` says whether one has it. -/
def enableManagedSpace.enable (p : Principal) (jobId : String) (foreign : Bool) (clock : Clock)
    (db : Db) : Except Error (Db × Response) :=
  match db.managed with
  | some existing => do
    refuse (existing.jobId ≠ jobId) (err 409 "managed_space_binding_immutable")
    return (db, .managedEnabled jobId)
  | none => do
    refuse (foreign = true) (err 409 "managed_job_space_conflict")
    let db := { db with managed := some ⟨jobId, clock 1, none⟩ }.emit "space.managed_enabled"
      p.id none
      [("job_id", .str jobId)] (clock 2)
    return (db, .managedEnabled jobId)

def enableManagedSpace (env : Env) (p : Principal) (jobId : String) (foreign : Bool) (key : String)
    (clock : Clock) (db : Db) : Except Error (Db × Response) := do
  requireProvisioner env p
  refuse (boundedText jobId 128 = false) (err 422 "invalid_job_binding")
  let member ← transaction env db p .write (clock 0)
  require member [.admin]
  once env db p "space.managed" key (.managed jobId) (clock 3)
    (enableManagedSpace.enable p jobId foreign clock db)

/-- The loop that stops every record of a retired space. The rows are those read before it;
each record is stopped as the row says. -/
def releaseAll (db : Db) (records : List Record) (clock : Clock) : Db :=
  records.foldl (fun db r => release d db r (stoppedState r) clock) db

def retireManagedSpace.retire (p : Principal) (managed : ManagedSpace) (clock : Clock) (db : Db) :
    Except Error (Db × Response) := do
  refuse (db.grants.any (·.enabled) = true) (err 409 "workload_revocation_required")
  if managed.retiredAt.isSome then
    return (db, .managed (managedState db managed))
  else
    let managed' := { managed with retiredAt := some (clock 1) }
    let db := releaseAll d { db with managed := some managed' } db.ledger.records fun i =>
      clock (i + 2)
    let db := db.emit "space.managed_retired" p.id none [("job_id", .str managed.jobId)] (clock 4)
    return (db, .managed (managedState db managed'))

def retireManagedSpace (env : Env) (p : Principal) (jobId : String) (key : String) (clock : Clock)
    (db : Db) : Except Error (Db × Response) := do
  requireProvisioner env p
  refuse (boundedText jobId 128 = false) (err 422 "invalid_job_binding")
  let member ← transaction env db p .writeRetired (clock 0)
  require member [.admin]
  let managed ← found (err 409 "managed_space_binding_required") db.managed
  refuse (managed.jobId ≠ jobId) (err 409 "managed_space_binding_required")
  once env db p "space.managed.retire" key (.retire jobId) (clock 5)
    (retireManagedSpace.retire d p managed clock db)

/-! ### Workload grants -/

/-- Bindings are a bounded JSON object. -/
def checkBindings (env : Env) (bindings : Json) : Except Error Unit :=
  match bindings with
  | .obj _ => do
    let _ ← metadataSize env bindings
  | _ => .error (err 422 "invalid_bindings")

/-- The checks on the body of a grant that need no transaction. -/
def checkGrantBody (env : Env) (body : WorkloadGrantBody) : Except Error Unit := do
  refuse (boundedText body.subject 256 = false ∨ boundedText body.jobId 128 = false ∨
    boundedText body.attemptId 128 = false ∨ boundedText body.componentId 128 = false)
    (err 422 "invalid_workload_binding")
  refuse (body.epoch < 1 ∨ body.epoch > maxInt64) (err 422 "invalid_workload_epoch")
  refuse (thumbprintAllowed body.certificateThumbprint = false)
    (err 422 "invalid_certificate_thumbprint")
  refuse (body.roles = []) (err 422 "invalid_roles")
  checkBindings env body.bindings

/-- The member the grant is for has the roles and the bindings it grants. -/
def grantedMember (env : Env) (db : Db) (body : WorkloadGrantBody) : Option Member :=
  (db.member (env.boundPrincipalId env.workloadIssuer body.subject)).filter fun m =>
    body.roles.all (· ∈ m.roles) && Fields.eqv m.bindings body.bindings.fields

/-- `max(epochs, default=0)`. -/
def highestEpoch (grants : List WorkloadGrant) : Int := (grants.map (·.epoch)).foldl max 0

/-- What the grants a principal had before allow its next one. -/
def checkPreviousGrants (body : WorkloadGrantBody) (previous : List WorkloadGrant) :
    Except Error Unit := do
  refuse (previous.any (·.componentId ≠ body.componentId) = true)
    (err 409 "workload_component_immutable")
  refuse (body.epoch < highestEpoch previous) (err 409 "stale_workload_epoch")
  refuse (previous.any (fun g => g.enabled ∧
    (g.attemptId ≠ body.attemptId ∨ g.epoch ≠ body.epoch)) = true)
    (err 409 "previous_attempt_not_revoked")
  refuse (previous.any (fun g => g.attemptId ≠ body.attemptId ∧ g.epoch ≥ body.epoch) = true)
    (err 409 "stale_workload_epoch")

def createWorkloadGrant.create (env : Env) (p : Principal) (body : WorkloadGrantBody) (key : String)
    (clock : Clock) (db : Db) : Except Error (Db × Response) := do
  let pid := env.boundPrincipalId env.workloadIssuer body.subject
  let managed ← found (err 409 "managed_space_binding_required") db.managed
  refuse (managed.jobId ≠ body.jobId) (err 409 "managed_space_binding_required")
  refuse (db.revocations.any (·.attemptId = body.attemptId) = true)
    (err 409 "attempt_already_revoked")
  let _ ← found (err 403 "workload_membership_required") (grantedMember env db body)
  refuse (body.expiresAt ≤ clock 1 ∨ clock 1 + 30 * 86400 < body.expiresAt)
    (err 422 "invalid_grant_expiry")
  checkPreviousGrants body (db.grants.filter (·.principalId = pid))
  let gid := env.grantId p.id key
  refuse (db.grants.any (·.id = gid) = true) Error.internal
  let grant : WorkloadGrant :=
    { id := gid, principalId := pid, subject := body.subject, jobId := body.jobId,
      attemptId := body.attemptId, componentId := body.componentId, epoch := body.epoch,
      roles := Role.sorted body.roles, bindings := body.bindings.fields,
      certificateThumbprint := body.certificateThumbprint, expiresAt := body.expiresAt,
      createdAt := clock 1 }
  let db := { db with grants := db.grants ++ [grant] }.emit "workload.granted" p.id none
    [("grant_id", .str gid), ("principal_id", .str pid), ("attempt_id", .str grant.attemptId),
     ("epoch", .int grant.epoch)] (clock 2)
  return (db, .grant grant)

def createWorkloadGrant (env : Env) (p : Principal) (body : WorkloadGrantBody) (key : String)
    (clock : Clock) (db : Db) : Except Error (Db × Response) := do
  requireProvisioner env p
  checkGrantBody env body
  let member ← transaction env db p .write (clock 0)
  require member [.admin]
  once env db p "workload.grant" key (.grant body) (clock 3)
    (createWorkloadGrant.create env p body key clock db)

/-- The time an attempt was revoked at: that of its tombstone, if it has one. -/
def revocationTime (db : Db) (attemptId : String) (now : Time) : Time :=
  ((db.revocations.find? (·.attemptId = attemptId)).map (·.revokedAt)).getD now

def revokeWorkloadGrants.revoke (p : Principal) (attemptId : String) (clock : Clock) (db : Db) :
    Except Error (Db × Response) := do
  let now := revocationTime db attemptId (clock 1)
  let revocations := if db.revocations.any (·.attemptId = attemptId) then db.revocations
    else db.revocations ++ [⟨attemptId, now⟩]
  let count := (db.grants.filter fun g => g.attemptId = attemptId ∧ g.enabled).length
  let grants := db.grants.map fun g =>
    if g.attemptId = attemptId ∧ g.enabled then { g with enabled := false, revokedAt := some now }
    else g
  let db := { db with revocations, grants }.emit "workload.revoked" p.id none
    [("attempt_id", .str attemptId), ("revoked", .int count)] (clock 2)
  return (db, .revoked attemptId count now)

def revokeWorkloadGrants (env : Env) (p : Principal) (attemptId : String) (key : String)
    (clock : Clock) (db : Db) : Except Error (Db × Response) := do
  requireProvisioner env p
  refuse (boundedText attemptId 128 = false) (err 422 "invalid_attempt_binding")
  let member ← transaction env db p .writeRetired (clock 0)
  require member [.admin]
  once env db p "workload.revoke" key (.revoke attemptId) (clock 3)
    (revokeWorkloadGrants.revoke p attemptId clock db)

/-! ### Limits and members -/

/-- The limits of a request, in the order of `Space`. -/
def limitValues (body : LimitsBody) : List Int :=
  [body.quotaBytes, body.principalQuotaBytes, body.quotaRecords,
    body.quotaMetadataBytes].filterMap id

/-- The largest usage of one creator, or 0. -/
def largestPrincipalUsage (l : Ledger) : Int :=
  (l.records.map fun r => principalUsage l r.creator).foldl max 0

/-- A limit that is set is not below the usage. -/
def limitBelow (limit : Option Int) (usage : Int) : Bool := limit.any (· < usage)

/-- `setattr(space, name, value)` for the limits of the request. -/
def setLimits (space : Space) (body : LimitsBody) : Space :=
  { space with
      quotaBytes := body.quotaBytes.getD space.quotaBytes
      principalQuotaBytes := body.principalQuotaBytes.getD space.principalQuotaBytes
      quotaRecords := body.quotaRecords.getD space.quotaRecords
      quotaMetadataBytes := body.quotaMetadataBytes.getD space.quotaMetadataBytes
      generation := space.generation + 1 }

/-- The fields of the event of a limit change. -/
def limitPayload (body : LimitsBody) : Fields :=
  [("quota_bytes", body.quotaBytes), ("principal_quota_bytes", body.principalQuotaBytes),
   ("quota_records", body.quotaRecords),
     ("quota_metadata_bytes", body.quotaMetadataBytes)].filterMap
    fun f => f.2.map fun n => (f.1, Json.int n)

def updateSpaceLimits (env : Env) (p : Principal) (body : LimitsBody) (clock : Clock) (db : Db) :
    Except Error (Db × Response) := do
  refuse (limitValues body = []) (err 422 "invalid_quota_fields")
  refuse ((limitValues body).any (fun n => n < 1 ∨ n > maxInt64) = true) (err 422 "invalid_quota")
  let member ← transaction env db p .write (clock 0)
  require member [.admin]
  let space := db.ledger.space
  refuse (limitBelow body.quotaBytes (space.allocated + space.reclaiming) = true ∨
      limitBelow body.principalQuotaBytes (largestPrincipalUsage db.ledger) = true ∨
      limitBelow body.quotaRecords space.recordCount = true ∨
      limitBelow body.quotaMetadataBytes space.metadataBytes = true)
    (err 409 "quota_below_current_usage")
  let db := { db with ledger := { db.ledger with space := setLimits space body } }.emit
    "space.limits_updated" p.id none (limitPayload body) (clock 1)
  return (db, .space db.ledger.space)

/-- The member row after `put_member`. -/
def writeMember (db : Db) (m : Member) : Db :=
  { db with members := if (db.member
    m.principalId).isSome then Table.put Member.principalId m db.members
      else db.members ++ [m] }

def putMember (env : Env) (p : Principal) (memberId : Id) (body : MemberBody) (clock : Clock)
    (db : Db) : Except Error (Db × Response) := do
  let caller ← transaction env db p .write (clock 0)
  require caller [.admin]
  refuse (boundedText memberId 64 = false) (err 422 "invalid_principal_id")
  refuse (body.subject.any (fun s => !boundedText s 256) = true) (err 422 "invalid_subject")
  checkBindings env body.bindings
  let others := db.members.filter (·.principalId ≠ memberId)
  let profile ← d.profiles db.ledger.space.profile
  profile.validateBindings body.bindings.fields (others.map (·.bindings))
  refuse ((db.member memberId).any (.admin ∈ ·.roles) = true ∧ .admin ∉ body.roles ∧
    others.any (.admin ∈ ·.roles) = false) (err 409 "last_admin")
  let m : Member := ⟨memberId, body.subject, Role.sorted body.roles, body.bindings.fields⟩
  let db := (writeMember db m).emit "membership.changed" p.id none
    [("principal_id", .str memberId)] (clock 1)
  return (db, .member m)

/-! ### Types and policies -/

/-- `validate_policy`: only contributors and publishers can be given the right to publish.
Its test of the visibility is in the type `Visibility`. -/
def validatePolicy (roles : List Role) : Except Error (List Role) := do
  refuse (roles = [] ∨ roles.any (· ∉ [Role.contributor, .publisher]) = true)
    (err 422 "invalid_publish_roles")
  return Role.sorted roles

/-- The first revision of a kind adds its policy. -/
def addPolicy (db : Db) (kind : String) (roles : List Role) (visibility : Visibility) : Db :=
  if (db.policy kind).isSome then db
  else { db with policies := db.policies ++ [{ kind, publishRoles := roles, visibility }] }

def registerType.create (p : Principal) (kind : String) (body : TypeBody) (roles : List Role)
    (visibility : Visibility) (clock : Clock) (db : Db) : Except Error (Db × Response) := do
  let number := ((db.revisions.filter (·.kind = kind)).map (·.revision)).foldl max 0
  let revision : SchemaRevision :=
    ⟨db.ledger.fresh 0, kind, number + 1, body.schema, db.ledger.space.profile, clock 1⟩
  let db := { db with revisions := db.revisions ++ [revision], ledger := db.ledger.draw 1 }
  let db := (addPolicy db kind roles visibility).emit "type.registered" p.id none
    [("kind", .str kind), ("revision", .int revision.revision)] (clock 2)
  return (db, .type revision)

def registerType (env : Env) (p : Principal) (kind : String) (body : TypeBody) (key : String)
    (clock : Clock) (db : Db) : Except Error (Db × Response) := do
  let member ← transaction env db p .write (clock 0)
  require member [.admin]
  validateKind kind
  refuse (env.schemaWellFormed body.schema = false) (err 422 "invalid_schema")
  let profile ← d.profiles db.ledger.space.profile
  profile.validateType kind body.schema.fields
  let defaults := profile.policyDefaults kind
  let roles ← validatePolicy (body.publishRoles.getD defaults.1)
  let visibility := body.visibility.getD defaults.2
  profile.validatePolicy kind roles visibility
  once env db p ("type.register:" ++ kind) key (.type body) (clock 3)
    (registerType.create p kind body roles visibility clock db)

def putPolicy (env : Env) (p : Principal) (kind : String) (body : PolicyBody) (clock : Clock)
    (db : Db) : Except Error (Db × Response) := do
  let member ← transaction env db p .write (clock 0)
  require member [.admin]
  let roles ← validatePolicy body.publishRoles
  let profile ← d.profiles db.ledger.space.profile
  profile.validatePolicy kind roles body.visibility
  let policy ← found (err 404 "type_not_found") (db.policy kind)
  refuse (body.visibility = .private ∧ db.registry.references.any (fun reference =>
      (db.ledger.record reference.recordId).any (·.kind = kind)) = true)
    (err 409 "policy_reference_conflict")
  let policy' : KindPolicy :=
    { policy with publishRoles := roles, visibility := body.visibility,
                  generation := policy.generation + 1 }
  let db := { db with
    policies := Table.put KindPolicy.kind policy' db.policies
    ledger := db.ledger.share kind (body.visibility = Visibility.shared) }
  let db := db.emit "policy.changed" p.id none [("kind", .str kind)] (clock 1)
  return (db, .policy policy')

end Hf2l.Exchange.Service
