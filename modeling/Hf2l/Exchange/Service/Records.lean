import Hf2l.Exchange.Store.Check
import Hf2l.Exchange.Store.Lifecycle
import Hf2l.Exchange.Store.Profile

/-!
# `Hf2l.Exchange.Service.Records`: authorization and the record commands

Each command is a function from the database to an error or to the database after it and a
response. An error leaves the database as it was, because the transaction rolls back. The
functions keep the order in which the source makes its checks. Every `database_time` a
command reads is one value of its `Clock`.

The Go service (`internal/service`) is a port of the Python one (`application.py`), command
by command. The commands are written once, with the names of the Python source, and
`Dialect` holds what the port does differently. The modules `Python.Commands` and
`Go.Commands` have the two dialects and the commands of each.

The nested functions that `once` guards have their command's name and their own, as in
`createRecord.create`. Read-only commands are modelled as far as the transfers use them.
-/

set_option autoImplicit false

namespace Hf2l.Exchange

/-- What the two services do differently in the commands of this directory. -/
structure Dialect where
  rule : ReleaseRule
  profiles : String → Except Error Profile
  /-- The error of a draft whose kind has no policy. -/
  policyMissing : Error
  /-- The error of a publication whose kind has no policy. -/
  policyMissingAtPublish : Error
  /-- `used + amount` is over the limit. -/
  exceeds : Int → Int → Int → Bool
  exceeds_sound : ∀ used amount limit, exceeds used amount limit = false → used + amount ≤ limit
  /-- `allocated + reclaiming + amount` is over the quota. -/
  bytesExceed : Space → Int → Bool
  bytesExceed_sound : ∀ (space : Space) amount, bytesExceed space amount = false →
    space.allocated + space.reclaiming + amount ≤ space.quotaBytes

namespace Service

open Lib

variable (d : Dialect)

/-! ### Authorization -/

/-- `require`: the member has one of the roles. -/
def require (member : Member) (roles : List Role) : Except Error Unit :=
  refuse (member.roles.any (· ∈ roles) = false) (err 403 "role_required")

/-- `set(a).intersection(b)`, sorted. -/
def commonRoles (a b : List Role) : List Role := Role.sorted (a.filter (· ∈ b))

/-- `_matching_grant`. -/
def matchingGrant (env : Env) (db : Db) (member : Member) (p : Principal)
    (identity : WorkloadIdentity) (now : Time) : Except Error WorkloadGrant := do
  let managed ← found (err 404 "space_not_found") db.managed
  refuse (env.workloadsEnabled = false ∨ managed.retiredAt.isSome = true ∨
    identity.spaceId ≠ db.ledger.space.id) (err 404 "space_not_found")
  let grant ← found (err 403 "workload_grant_invalid")
    (Table.get WorkloadGrant.id identity.grantId db.grants)
  refuse (grant.enabled = false ∨ grant.expiresAt ≤ now ∨ identity.expiresAt ≤ now ∨
      grant.principalId ≠ p.id ∨ grant.subject ≠ p.subject ∨ grant.jobId ≠ managed.jobId ∨
      grant.jobId ≠ identity.jobId ∨ grant.attemptId ≠ identity.attemptId ∨
      grant.componentId ≠ identity.componentId ∨ grant.epoch ≠ identity.epoch ∨
      grant.certificateThumbprint ≠ identity.certificateThumbprint ∨
      Fields.eqv grant.bindings member.bindings = false)
    (err 403 "workload_grant_invalid")
  refuse (member.roles.any (· ∈ grant.roles) = false) (err 403 "workload_grant_invalid")
  return grant

/-- What a caller without a workload identity may do: in a managed space only provisioning
principals act, and download brokers read. -/
def directMember (env : Env) (db : Db) (p : Principal) (member : Member) : Except Error Member :=
  if db.managed.isNone then .ok member
  else do
    refuse (p.id ∉ env.provisioningPrincipalIds ++ env.downloadBrokerPrincipalIds)
      (err 404 "space_not_found")
    if p.id ∈ env.provisioningPrincipalIds then .ok member
    else do
      refuse (commonRoles member.roles [.reader] = []) (err 404 "space_not_found")
      return { member with roles := commonRoles member.roles [.reader] }

/-- Membership under the roles of a matching grant, or of a direct caller. -/
def effectiveMember (env : Env) (db : Db) (p : Principal) (member : Member) (now : Time) :
    Except Error Member :=
  match p.workload with
  | some identity => do
    let grant ← matchingGrant env db member p identity now
    return { member with roles := commonRoles member.roles grant.roles }
  | none => directMember env db p member

/-- The space is managed and retired. -/
def retired (db : Db) : Bool := db.managed.any (·.retiredAt.isSome)

/-- The arguments `write` and `allow_retired` of a transaction. -/
inductive Access where
  | read
  | write
  | writeRetired
deriving DecidableEq, Repr

/-- `transaction`: the caller's current membership, or a refusal. -/
def transaction (env : Env) (db : Db) (p : Principal) (access : Access) (now : Time) :
    Except Error Member := do
  let member ← found (err 404 "space_not_found") (db.member p.id)
  refuse (member.roles = []) (err 404 "space_not_found")
  let member ← effectiveMember env db p member now
  refuse (retired db = true ∧ access = .write) (err 409 "managed_space_retired")
  return member

/-- `once`: a command that succeeded under this key returns its recorded response. -/
def once (env : Env) (db : Db) (p : Principal) (scope key : String) (request : Request) (now : Time)
    (action : Except Error (Db × Response)) : Except Error (Db × Response) := do
  refuse (key = "" ∨ key.length > 128) (err 422 "idempotency_key_required")
  match db.operation p.id scope key with
  | some operation =>
    refuse (operation.requestHash ≠ env.digest request) (err 409 "idempotency_conflict")
    return (db, operation.response)
  | none =>
    let (db, result) ← action
    return ({ db with operations :=
      db.operations ++ [⟨p.id, scope, key, env.digest request, result, now⟩] }, result)

/-! ### Records as a caller sees them -/

/-- `visible_clause`. -/
def visible (member : Member) (p : Principal) (r : Record) : Bool :=
  (member.roles.any (· ∈ [Role.reader, .contributor, .publisher]) && r.state = .published &&
    r.shared) ||
  (decide (.contributor ∈ member.roles) && r.creator = p.id) ||
  (decide (.publisher ∈ member.roles) && (r.state = .published || r.creator = p.id))

/-- `record`: a record the caller owns (`write`) or sees. -/
def record (db : Db) (id : Id) (member : Member) (p : Principal) (write : Bool) :
    Except Error Record := do
  let r ← found (err 404 "record_not_found") (db.ledger.record id)
  if write then do
    require member [.contributor, .publisher]
    refuse (r.creator ≠ p.id) (err 403 "record_owner_required")
    return r
  else do
    refuse (visible member p r = false) (err 404 "record_not_found")
    return r

/-- `attachment`: an attachment of the record. -/
def attachment (db : Db) (recordId attachmentId : Id) : Except Error Blob := do
  let b ← found (err 404 "attachment_not_found") (db.ledger.blob attachmentId)
  refuse (b.recordId ≠ recordId) (err 404 "attachment_not_found")
  return b

def blobDict (b : Blob) : AttachmentView :=
  ⟨b.id, b.path, b.size, b.sha256, b.mediaType, b.state, b.partSize⟩

/-- `record_dict`: the attachments stand in the order of their paths. -/
def recordDict (db : Db) (r : Record) : RecordView where
  id := r.id
  kind := r.kind
  schemaRevisionId := r.schemaRevisionId
  metadata := r.metadata
  state := r.state
  version := r.generation
  shared := r.shared
  creator := r.creator
  creatorBindings := r.creatorBindings
  createdAt := r.createdAt
  publishedAt := r.publishedAt
  expiresAt := r.expiresAt
  attachments := ((db.ledger.blobsOf r.id).insertionSort fun a b => a.path ≤ b.path).map blobDict

def checkDraft (r : Record) (now : Time) : Except Error Unit := do
  refuse (r.state ≠ .draft) (err 409 "record_not_draft")
  refuse (r.expiresAt ≤ now) (err 409 "draft_expired")

/-- The bytes that attachments of one creator occupy. -/
def principalUsage (l : Ledger) (creator : Id) : Int :=
  Table.total (fun b : Blob => b.size) (l.blobs.filter fun b =>
    b.state ≠ .cleaned ∧ (l.record b.recordId).any (·.creator = creator))

/-- A foreign key of the database: a base that is named exists. -/
def baseExists (l : Ledger) (base : Option Id) : Bool :=
  base.all fun id => (l.record id).isSome

/-! ### The record life cycle -/

/-- A base that is not empty is visible to the caller and, if asked, published. -/
def checkBase (db : Db) (base : Option Id) (member : Member) (p : Principal) (published : Bool) :
    Except Error Unit :=
  match base with
  | none => .ok ()
  | some "" => .ok ()
  | some id => do
    let r ← record db id member p false
    refuse (published = true ∧ r.state ≠ .published) (err 409 "base_not_published")

/-- The attachments of a new record; their identifiers follow the record's. -/
def newBlobs (env : Env) (l : Ledger) (recordId : Id) (expiresAt : Time)
    (attachments : List AttachmentBody) : List Blob :=
  attachments.mapIdx fun i a =>
    { id := l.fresh (i + 1), recordId, path := a.path, size := a.size.toNat, sha256 := a.sha256,
      mediaType := a.mediaType, partSize := partSizeOf env a.size.toNat, expiresAt }

/-- The row of a new record. -/
def newRecord (env : Env) (l : Ledger) (p : Principal) (member : Member) (revision : SchemaRevision)
    (policy : KindPolicy) (metadata : Fields) (base : Option Id) (amount size : Nat) (now : Time) :
    Record where
  id := l.fresh 0
  kind := revision.kind
  schemaRevisionId := revision.id
  creator := p.id
  creatorBindings := member.bindings
  baseRecordId := base
  metadata := metadata
  state := .draft
  shared := policy.visibility = .shared
  generation := 1
  declaredBytes := amount
  metadataBytes := size
  createdAt := now
  expiresAt := now + env.draftSeconds

def createRecord.create (env : Env) (p : Principal) (member : Member) (body : RecordBody)
    (clock : Clock) (db : Db) : Except Error (Db × Response) := do
  let revision ← found (err 422 "type_revision_mismatch") (db.revision body.schemaRevisionId)
  refuse (revision.kind ≠ body.kind) (err 422 "type_revision_mismatch")
  let policy ← found d.policyMissing (db.policy revision.kind)
  require member policy.publishRoles
  let size ← validateMetadata env body.metadata revision.schema
  let profile ← d.profiles db.ledger.space.profile
  let metadata := body.metadata.fields
  profile.validateRecord revision.kind metadata member.bindings
  refuse (body.attachments.length > maxAttachments) (err 422 "too_many_attachments")
  let amount ← checkAttachments env [] body.attachments
  let space := db.ledger.space
  refuse (d.exceeds space.recordCount 1 space.quotaRecords = true ∨
    d.exceeds space.metadataBytes size space.quotaMetadataBytes = true)
    (err 409 "metadata_quota_exceeded")
  refuse (d.bytesExceed space amount = true) (err 409 "blob_quota_exceeded")
  refuse (d.exceeds (principalUsage db.ledger p.id) amount space.principalQuotaBytes = true)
    (err 409 "principal_blob_quota_exceeded")
  let base := profile.recordBaseId body.kind metadata
  checkBase db base member p true
  refuse (baseExists db.ledger base = false) Error.internal
  let r := newRecord env db.ledger p member revision policy metadata base amount size (clock 1)
  let blobs := newBlobs env db.ledger r.id r.expiresAt body.attachments
  let ledger := (db.ledger.insertRecord r blobs).draw (1 + blobs.length)
  let db := { db with ledger }.emit "record.created" p.id (some r.id) [] (clock 2)
  return (db, .record (recordDict db r))

def createRecord (env : Env) (p : Principal) (body : RecordBody) (key : String) (clock : Clock)
    (db : Db) : Except Error (Db × Response) := do
  let member ← transaction env db p .write (clock 0)
  require member [.contributor, .publisher]
  once env db p "record.create" key (.record body) (clock 3)
    (createRecord.create d env p member body clock db)

/-- The draft with new metadata. -/
def amended (r : Record) (metadata : Fields) (size : Nat) (base : Option Id) : Record :=
  { r with metadata, metadataBytes := size, baseRecordId := base, generation := r.generation + 1 }

/-- `patch_record`. The base of the new metadata has to be visible, not published. -/
def patchRecord (env : Env) (p : Principal) (recordId : Id) (metadata : Json)
    (expectedVersion : String) (clock : Clock) (db : Db) : Except Error (Db × Response) := do
  let member ← transaction env db p .write (clock 0)
  let r ← record db recordId member p true
  checkDraft r (clock 1)
  refuse (Nat.repr r.generation ≠ expectedVersion) (err 412 "record_version_mismatch")
  let revision ← found Error.internal (db.revision r.schemaRevisionId)
  let size ← validateMetadata env metadata revision.schema
  let profile ← d.profiles db.ledger.space.profile
  profile.validateRecord r.kind metadata.fields r.creatorBindings
  let space := db.ledger.space
  refuse (d.exceeds (space.metadataBytes - r.metadataBytes) size space.quotaMetadataBytes = true)
    (err 409 "metadata_quota_exceeded")
  let base := profile.recordBaseId r.kind metadata.fields
  checkBase db base member p false
  refuse (baseExists db.ledger base = false) Error.internal
  let r' := amended r metadata.fields size base
  let ledger := (db.ledger.putRecord r').addMetadataBytes (size - r.metadataBytes)
  let db := { db with ledger }.emit "record.updated" p.id (some r.id) [] (clock 2)
  return (db, .record (recordDict db r'))

/-- The attachment's object was verified to be what the draft declared. -/
def verifiedAsDeclared (b : Blob) : Bool :=
  b.state = .verified && b.objectVersion.any (· ≠ "") && b.verifiedSize = some b.size &&
    b.verifiedSha256 = some b.sha256

/-- The draft as it is published under the policy of its kind. -/
def publishedAs (r : Record) (policy : KindPolicy) (now : Time) : Record :=
  { r with
      state := .published, publishedAt := some now, shared := policy.visibility = Visibility.shared,
      generation := r.generation + 1 }

def publishRecord.publish (env : Env) (p : Principal) (member : Member) (r : Record)
    (policy : KindPolicy) (clock : Clock) (db : Db) : Except Error (Db × Response) := do
  checkDraft r (clock 1)
  let revision ← found Error.internal (db.revision r.schemaRevisionId)
  let _ ← validateMetadata env (.obj r.metadata) revision.schema
  let profile ← d.profiles db.ledger.space.profile
  profile.validatePublish r.kind r.metadata r.creatorBindings member.bindings
  checkBase db r.baseRecordId member p true
  refuse ((db.ledger.blobsOf r.id).all verifiedAsDeclared = false)
    (err 409 "attachments_not_verified")
  let r' := publishedAs r policy (clock 2)
  let db := { db with ledger := db.ledger.putRecord r' }.emit "record.published" p.id (some r.id) []
    (clock 3)
  return (db, .record (recordDict db r'))

def publishRecord (env : Env) (p : Principal) (recordId : Id) (key : String) (clock : Clock)
    (db : Db) : Except Error (Db × Response) := do
  let member ← transaction env db p .write (clock 0)
  let r ← record db recordId member p true
  let policy ← found d.policyMissingAtPublish (db.policy r.kind)
  require member policy.publishRoles
  once env db p ("record.publish:" ++ recordId) key .publish (clock 4)
    (publishRecord.publish d env p member r policy clock db)

/-- The text of a record state. -/
def stateText : RecordState → String
  | .draft => "draft"
  | .published => "published"
  | .cancelled => "cancelled"
  | .expired => "expired"
  | .failed => "failed"
  | .withdrawn => "withdrawn"

/-- `release`: stop a record and keep the charge for its bytes until they are deleted. -/
def release (db : Db) (r : Record) (state : RecordState) (clock : Clock) : Db :=
  if r.state.terminal then db
  else
    { db with ledger := d.rule.release db.ledger r state (clock 0) }.emit
      ("record." ++ stateText state) "system" (some r.id)
      [("state", .str (stateText state)), ("kind", .str r.kind),
       ("published", .bool r.publishedAt.isSome)] (clock 1)

/-- The state a record is stopped in by its owner. -/
def stoppedState (r : Record) : RecordState :=
  if r.state = .published then .withdrawn else .cancelled

/-- An acquisition that still holds its lease has the record among its inputs. -/
def inActiveAcquisition (db : Db) (recordId : Id) (now : Time) : Bool :=
  db.registry.coordinations.any fun c =>
    c.state = .active && c.leaseUntil > now && recordId ∈ db.inputIds c.id

/-- The record a caller may withdraw: an administrator any, others their own. -/
def withdrawable (db : Db) (recordId : Id) (member : Member) (p : Principal) :
    Except Error Record :=
  if .admin ∈ member.roles then found (err 404 "record_not_found") (db.ledger.record recordId)
  else record db recordId member p true

def withdrawRecord (env : Env) (p : Principal) (recordId : Id) (clock : Clock) (db : Db) :
    Except Error (Db × Response) := do
  let member ← transaction env db p .write (clock 0)
  let r ← withdrawable db recordId member p
  refuse (db.ledger.records.any (fun d => d.baseRecordId = some r.id ∧ d.state = .published) = true)
    (err 409 "record_retained_for_provenance")
  refuse (db.registry.references.any (·.recordId = r.id) = true) (err 409 "record_referenced")
  refuse (inActiveAcquisition db r.id (clock 1) = true) (err 409 "record_in_active_acquisition")
  let db := release d db r (stoppedState r) fun i => clock (i + 2)
  return (db, .released r.id (if r.state.terminal then r.state else stoppedState r))

/-- `TERMINAL_EVENTS`: these outlive the metadata of their record. -/
def terminalEvents : List String :=
  ["record.withdrawn", "record.cancelled", "record.failed", "record.expired"]

def purgeRecord (env : Env) (p : Principal) (recordId : Id) (clock : Clock) (db : Db) :
    Except Error (Db × Response) := do
  let member ← transaction env db p .write (clock 0)
  require member [.admin]
  let r ← found (err 404 "record_not_found") (db.ledger.record recordId)
  refuse (r.state.terminal = false) (err 409 "record_not_terminal")
  let blobs := db.ledger.blobsOf r.id
  refuse (blobs.any (·.state ≠ .cleaned) = true) (err 409 "cleanup_pending")
  refuse (blobs.any (fun b => (db.ledger.attemptsOf b.id).any (·.mutationTokens ≠ [])) = true)
    (err 409 "cleanup_pending")
  refuse (db.registry.inputs.any (·.recordId = r.id) = true ∨
      db.ledger.records.any (·.baseRecordId = some r.id) = true ∨
      db.registry.coordinations.any (·.resultRecordId = some r.id) = true)
    (err 409 "record_retained_for_provenance")
  -- The foreign key of the references: a retired space may still have one.
  refuse (db.registry.references.any (·.recordId = r.id) = true) Error.internal
  let db := { db with
    ledger := db.ledger.removeRecord r
    events := db.events.filter fun e => e.recordId ≠ some r.id ∨ e.type ∈ terminalEvents }
  let db := db.emit "record.purged" p.id none [("record_id", .str recordId)] (clock 1)
  return (db, .purged recordId)

end Service

end Hf2l.Exchange
