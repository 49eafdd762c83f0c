import Hf2l.Exchange.Store.Json
import Hf2l.Lib.Table

/-!
# `Hf2l.Exchange.Store.Rows`: the tables of one exchange space

The Python service and its Go port run on one schema (`models.py`, `schema.go`). This
module has its rows and the database state `Db` of **one space**: the space row and every
row of that space. A transaction locks one space row and selects rows by that space's id,
and every identifier is unique across spaces, so the other spaces are not visible to it.

`Ledger` groups the tables that carry the byte charges (records, attachments, transfer
attempts), `Registry` the tables of references and acquisitions. `Db` adds the rest.

Identifiers are texts. `Ledger.fresh` stands for `uuid.uuid4().hex`: it counts, so it never
gives a value twice. A mutation token is a value of `Token`, which keeps apart the two
kinds of text the code tells apart by `startswith("gateway-put-")`. An object key keeps the
segments that the source joins with `/`. Times are whole seconds; every reading of the
database clock is an argument of the transaction that makes it.
-/

set_option autoImplicit false

namespace Hf2l.Exchange

open Lib

/-- The identifier of a row. -/
abbrev Id := String

/-- A reading of the database clock, or a time computed from one. -/
abbrev Time := Int

/-- The readings that one transaction makes, in order. Nothing relates two readings. -/
abbrev Clock := Nat → Time

/-! ### Vocabulary -/

/-- A role of a member. -/
inductive Role where
  | reader
  | contributor
  | publisher
  | admin
deriving DecidableEq, Repr

/-- `sorted(set(roles))`: the order of the names, each role once. -/
def Role.sorted (roles : List Role) : List Role :=
  [.admin, .contributor, .publisher, .reader].filter (· ∈ roles)

/-- Who may read the records of a kind. -/
inductive Visibility where
  | shared
  | «private»
deriving DecidableEq, Repr

/-- The life of a record. -/
inductive RecordState where
  | draft
  | published
  | cancelled
  | expired
  | failed
  | withdrawn
deriving DecidableEq, Repr

/-- Membership in `TERMINAL`. -/
def RecordState.terminal : RecordState → Bool
  | .draft => false
  | .published => false
  | _ => true

/-- The states of a transfer attempt and of an attachment. `reserved` occurs on
attachments only. -/
inductive TransferState where
  | reserved
  | initiating
  | uploading
  | completing
  | verifying
  | verified
  | cleanup
  | cleaned
  | failed
deriving DecidableEq, Repr

/-- The states `_active` looks for: the attempt owns an upload that is still wanted. -/
def TransferState.active : TransferState → Bool
  | .cleanup | .cleaned | .failed => false
  | _ => true

/-- What an attempt is for. -/
inductive AttemptOperation where
  | upload
  | cleanup
deriving DecidableEq, Repr

/-- The life of an acquisition. -/
inductive CoordinationState where
  | active
  | expired
  | abandoned
  | completed
deriving DecidableEq, Repr

/-- A token of an execution's lease, or of one gateway PUT of one part. -/
inductive Token where
  | lease (id : Id)
  | gatewayPut (part : Nat) (id : Id)
deriving DecidableEq, Repr

/-- `"gateway-put-"` starts the token. -/
def Token.isGatewayPut : Token → Bool
  | .lease _ => false
  | .gatewayPut _ _ => true

/-- The segments of a storage key: the configured root, the space, the attachment and the
attempt. -/
structure ObjectKey where
  root : String
  spaceId : Id
  blobId : Id
  attemptId : Id
deriving DecidableEq, Repr

/-- The `upload_handle` column. The empty object has no field set. -/
structure UploadHandle where
  id : Option String := none
  key : Option ObjectKey := none
  version : Option String := none
deriving DecidableEq, Repr

/-! ### Rows -/

/-- `spaces`: limits and byte accounts. -/
structure Space where
  id : Id
  profile : String
  generation : Nat := 1
  quotaBytes : Int
  principalQuotaBytes : Int
  allocated : Int := 0
  reclaiming : Int := 0
  quotaRecords : Int
  recordCount : Int := 0
  quotaMetadataBytes : Int
  metadataBytes : Int := 0
  eventFloor : Nat := 0

/-- The job that manages a space. -/
structure ManagedSpace where
  jobId : String
  createdAt : Time
  retiredAt : Option Time := none

/-- A principal of a space. -/
structure Member where
  principalId : Id
  subject : Option String
  roles : List Role
  bindings : Fields

/-- A revision of a registered type. -/
structure SchemaRevision where
  id : Id
  kind : String
  revision : Nat
  schema : Json
  profileVersion : String
  createdAt : Time

/-- The policy of a record kind. -/
structure KindPolicy where
  kind : String
  publishRoles : List Role
  visibility : Visibility
  generation : Nat := 1

/-- A record, draft or published. -/
structure Record where
  id : Id
  kind : String
  schemaRevisionId : Id
  creator : Id
  creatorBindings : Fields
  baseRecordId : Option Id
  metadata : Fields
  state : RecordState
  shared : Bool
  generation : Nat
  declaredBytes : Nat
  metadataBytes : Nat
  createdAt : Time
  publishedAt : Option Time := none
  expiresAt : Time

/-- An attachment. -/
structure Blob where
  id : Id
  recordId : Id
  path : String
  size : Nat
  sha256 : String
  mediaType : String
  state : TransferState := .reserved
  objectKey : Option ObjectKey := none
  objectVersion : Option String := none
  verifiedSize : Option Nat := none
  verifiedSha256 : Option String := none
  partSize : Nat
  grantExpiresAt : Time := 0
  pendingDeletion : Bool := false
  expiresAt : Time

/-- One attempt to transfer an attachment. -/
structure TransferAttempt where
  id : Id
  blobId : Id
  operation : AttemptOperation
  objectKey : ObjectKey
  state : TransferState
  token : Option Token
  leaseUntil : Option Time
  retryCount : Nat := 0
  nextAttempt : Time
  lastError : Option String := none
  uploadHandle : UploadHandle := {}
  mutationTokens : List Token
  grantExpiresAt : Time := 0
  createdAt : Time
  updatedAt : Time

/-- A named pointer to a record. -/
structure Reference where
  name : String
  recordId : Id
  generation : Nat
  fence : Nat

/-- An acquisition of a reference. -/
structure Coordination where
  id : Id
  referenceName : String
  expectedGeneration : Nat
  holder : Id
  fence : Nat
  state : CoordinationState
  leaseUntil : Time
  resultRecordId : Option Id := none
  createdAt : Time

/-- An input that an acquisition froze. -/
structure CoordinationInput where
  attemptId : Id
  recordId : Id

/-- What a component of a job may do. -/
structure WorkloadGrant where
  id : Id
  principalId : Id
  subject : String
  jobId : String
  attemptId : String
  componentId : String
  epoch : Int
  roles : List Role
  bindings : Fields
  certificateThumbprint : String
  expiresAt : Time
  enabled : Bool := true
  createdAt : Time
  revokedAt : Option Time := none

/-- An attempt that gets no more grants. -/
structure WorkloadRevocation where
  attemptId : String
  revokedAt : Time

/-- An entry of the feed. -/
structure Event where
  id : Nat
  recordId : Option Id
  type : String
  principalId : Id
  payload : Fields
  createdAt : Time

/-! ### Requests and responses -/

structure AttachmentBody where
  path : String
  size : Int
  sha256 : String
  mediaType : String := "application/octet-stream"

structure RecordBody where
  kind : String
  schemaRevisionId : Id
  metadata : Json
  attachments : List AttachmentBody

structure AcquisitionBody where
  reference : String
  expectedToken : String
  inputRecordIds : List Id := []
  leaseSeconds : Option Int := none

structure CompletionBody where
  fence : Nat
  resultRecordId : Id

structure TypeBody where
  schema : Json
  publishRoles : Option (List Role) := none
  visibility : Option Visibility := none

structure PolicyBody where
  publishRoles : List Role := [.contributor, .publisher]
  visibility : Visibility := .shared

structure MemberBody where
  subject : Option String := none
  roles : List Role := []
  bindings : Json := .obj []

/-- The body of `create_space`. -/
structure SpaceBody where
  name : String
  profile : String := "generic.v1"
  quotaBytes : Int := 10 * 1024 ^ 3
  principalQuotaBytes : Int := 10 * 1024 ^ 3
  quotaRecords : Int := 100000
  quotaMetadataBytes : Int := 1024 ^ 3

/-- The limits a request changes. -/
structure LimitsBody where
  quotaBytes : Option Int := none
  principalQuotaBytes : Option Int := none
  quotaRecords : Option Int := none
  quotaMetadataBytes : Option Int := none

structure WorkloadGrantBody where
  subject : String
  jobId : String
  attemptId : String
  componentId : String
  epoch : Int
  roles : List Role
  bindings : Json := .obj []
  certificateThumbprint : String
  expiresAt : Time

/-- The bodies that the idempotency ledger digests. -/
inductive Request where
  | space (body : SpaceBody)
  | managed (jobId : String)
  | retire (jobId : String)
  | grant (body : WorkloadGrantBody)
  | revoke (attemptId : String)
  | type (body : TypeBody)
  | record (body : RecordBody)
  | publish
  | reference (recordId : Id) (expectedToken : String)
  | acquisition (body : AcquisitionBody)
  | completion (body : CompletionBody)

structure AttachmentView where
  id : Id
  path : String
  size : Nat
  sha256 : String
  mediaType : String
  state : TransferState
  partSize : Nat

structure RecordView where
  id : Id
  kind : String
  schemaRevisionId : Id
  metadata : Fields
  state : RecordState
  version : Nat
  shared : Bool
  creator : Id
  creatorBindings : Fields
  createdAt : Time
  publishedAt : Option Time
  expiresAt : Time
  attachments : List AttachmentView

structure AcquisitionView where
  id : Id
  reference : String
  expectedToken : String
  holder : Id
  fence : Nat
  state : CoordinationState
  leaseUntil : Time
  inputRecordIds : List Id
  resultRecordId : Option Id

structure ManagedView where
  jobId : String
  retiredAt : Option Time
  cleanupPending : Bool

/-- What a command returns. -/
inductive Response where
  | managedEnabled (jobId : String)
  | managed (view : ManagedView)
  | grant (row : WorkloadGrant)
  | revoked (attemptId : String) (count : Nat) (revokedAt : Time)
  | space (row : Space)
  | member (row : Member)
  | type (row : SchemaRevision)
  | policy (row : KindPolicy)
  | record (view : RecordView)
  | released (id : Id) (state : RecordState)
  | purged (id : Id)
  | reference (name : String) (recordId : Id) (token : String)
  | acquisition (view : AcquisitionView)

/-- The answer kept for an idempotency key. -/
structure Operation where
  principalId : Id
  scope : String
  key : String
  requestHash : String
  response : Response
  createdAt : Time

/-! ### Configuration and callers -/

/-- The settings the commands read, and the functions they call that are not the exchange's
own: the length of the canonical JSON encoding, JSON Schema validation, Unicode case
folding, and the SHA-256 digests of requests, principals and grants. -/
structure Env where
  workloadsEnabled : Bool
  workloadIssuer : String
  provisioningPrincipalIds : List Id
  downloadBrokerPrincipalIds : List Id
  storageRoot : String
  grantSeconds : Int
  partSize : Nat
  leaseSeconds : Int
  failureSeconds : Int
  recoverAfter : Int
  operationRetentionSeconds : Int
  eventRetentionSeconds : Int
  draftSeconds : Int
  coordinationSeconds : Int
  canonicalLength : Json → Nat
  schemaWellFormed : Json → Bool
  schemaAccepts : Json → Json → Bool
  casefold : String → String
  digest : Request → String
  boundPrincipalId : String → String → Id
  grantId : Id → String → Id

/-- The workload that a token names. -/
structure WorkloadIdentity where
  grantId : Id
  spaceId : Id
  jobId : String
  attemptId : String
  componentId : String
  epoch : Int
  certificateThumbprint : String
  expiresAt : Time

/-- The caller. -/
structure Principal where
  id : Id
  subject : String
  workload : Option WorkloadIdentity := none

/-- A refused command: the HTTP status, the error code and the detail, which is the code
when it is empty. -/
structure Error where
  status : Nat
  code : String
  detail : String := ""
deriving DecidableEq, Repr

/-- An exception that is not an `ExchangeError`: a missing row, or a constraint of the
database. The transaction rolls back. -/
def Error.internal : Error := ⟨500, "internal_error", ""⟩

/-- `raise Error(status, code)`. -/
def err (status : Nat) (code : String) : Error := ⟨status, code, ""⟩

/-- `if c: raise`. -/
def refuse (c : Prop) [Decidable c] (e : Error) : Except Error Unit :=
  if c then .error e else .ok ()

/-- A row the code reads without a test for its absence, or with one that raises `e`. -/
def found {α : Type} (e : Error) : Option α → Except Error α
  | some a => .ok a
  | none => .error e

theorem refuse_ok {c : Prop} [Decidable c] {e : Error} {u : Unit} : refuse c e = .ok u ↔ ¬ c := by
  unfold refuse
  by_cases h : c <;> simp [h]

theorem found_ok {α : Type} {e : Error} {o : Option α} {a : α} :
    found e o = .ok a ↔ o = some a := by
  cases o with
  | none | some b => simp [found]

/-! ### The database of one space -/

/-- The space row, the tables its byte counters account for, and the supply of identifiers. -/
structure Ledger where
  space : Space
  records : List Record
  blobs : List Blob
  attempts : List TransferAttempt
  /-- How many identifiers have been drawn. -/
  minted : Nat

/-- References and the acquisitions that fence them. -/
structure Registry where
  references : List Reference
  coordinations : List Coordination
  inputs : List CoordinationInput

/-- The tables of one space. -/
structure Db where
  ledger : Ledger
  registry : Registry
  managed : Option ManagedSpace
  members : List Member
  revisions : List SchemaRevision
  policies : List KindPolicy
  grants : List WorkloadGrant
  revocations : List WorkloadRevocation
  operations : List Operation
  events : List Event
  /-- The last event id the database assigned. -/
  eventSeq : Nat

namespace Ledger

section
variable (l : Ledger)

def record (id : Id) : Option Record := Table.get Record.id id l.records

def blob (id : Id) : Option Blob := Table.get Blob.id id l.blobs

def attempt (id : Id) : Option TransferAttempt :=
  Table.get TransferAttempt.id id l.attempts

/-- The attachments of a record. -/
def blobsOf (recordId : Id) : List Blob := l.blobs.filter (·.recordId = recordId)

/-- The transfer attempts of an attachment. -/
def attemptsOf (blobId : Id) : List TransferAttempt :=
  l.attempts.filter (·.blobId = blobId)

def putRecord (r : Record) : Ledger :=
  { l with records := Table.put Record.id r l.records }

def putBlob (b : Blob) : Ledger := { l with blobs := Table.put Blob.id b l.blobs }

def putAttempt (a : TransferAttempt) : Ledger :=
  { l with attempts := Table.put TransferAttempt.id a l.attempts }

def insertAttempt (a : TransferAttempt) : Ledger :=
  { l with attempts := l.attempts ++ [a] }

/-- The identifier drawn after `i` others. -/
def fresh (i : Nat) : Id := Nat.repr (l.minted + i)

/-- The supply after `n` identifiers are drawn. -/
def draw (n : Nat) : Ledger := { l with minted := l.minted + n }

/-- `space.allocated += n`. -/
def addAllocated (n : Int) : Ledger :=
  { l with space := { l.space with allocated := l.space.allocated + n } }

/-- `space.reclaiming += n`. -/
def addReclaiming (n : Int) : Ledger :=
  { l with space := { l.space with reclaiming := l.space.reclaiming + n } }

/-- `space.metadata_bytes += n`. -/
def addMetadataBytes (n : Int) : Ledger :=
  { l with space := { l.space with metadataBytes := l.space.metadataBytes + n } }

end

end Ledger

namespace Db

section
variable (db : Db)

/-- The row `once` looks up. -/
def operation (principalId : Id) (scope key : String) : Option Operation :=
  db.operations.find? fun o => o.principalId = principalId ∧ o.scope = scope ∧ o.key = key

/-- Append an event with the next id. -/
def emit (type : String) (principalId : Id) (recordId : Option Id) (payload : Fields) (now : Time) :
    Db :=
  { db with
      events := db.events ++ [⟨db.eventSeq + 1, recordId, type, principalId, payload, now⟩]
      eventSeq := db.eventSeq + 1 }

def member (principalId : Id) : Option Member :=
  Table.get Member.principalId principalId db.members

def policy (kind : String) : Option KindPolicy :=
  Table.get KindPolicy.kind kind db.policies

def revision (id : Id) : Option SchemaRevision :=
  Table.get SchemaRevision.id id db.revisions

def reference (name : String) : Option Reference :=
  Table.get Reference.name name db.registry.references

def coordination (id : Id) : Option Coordination :=
  Table.get Coordination.id id db.registry.coordinations

/-- The frozen inputs of an acquisition. -/
def inputIds (attemptId : Id) : List Id :=
  (db.registry.inputs.filter (·.attemptId = attemptId)).map (·.recordId)

end

end Db

/-! ### A new space -/

/-- `2**63 - 1`. -/
def maxInt64 : Int := 9223372036854775807

/-- The limits a space can be created with. -/
structure Limits where
  quotaBytes : Int
  principalQuotaBytes : Int
  quotaRecords : Int
  quotaMetadataBytes : Int
  bounded : ∀ n ∈ [quotaBytes, principalQuotaBytes, quotaRecords, quotaMetadataBytes],
    1 ≤ n ∧ n ≤ maxInt64

/-- The database that `create_space` leaves: no records, and the creator as the one member,
with every role. -/
def Db.created (spaceId profile : String) (limits : Limits) (creator : Principal) (now : Time) :
    Db where
  ledger :=
    { space :=
        { id := spaceId, profile, quotaBytes := limits.quotaBytes,
          principalQuotaBytes := limits.principalQuotaBytes, quotaRecords := limits.quotaRecords,
          quotaMetadataBytes := limits.quotaMetadataBytes }
      records := [], blobs := [], attempts := [], minted := 0 }
  registry := ⟨[], [], []⟩
  managed := none
  members := [⟨creator.id, some creator.subject, [.admin, .contributor, .publisher, .reader], []⟩]
  revisions := []
  policies := []
  grants := []
  revocations := []
  operations := []
  events := [⟨1, none, "space.created", creator.id, [], now⟩]
  eventSeq := 1

end Hf2l.Exchange
