import Hf2l.Exchange.Store.Rows
import Mathlib.Data.List.Sort

/-!
# `Hf2l.Exchange.Store.Profile`: application profiles

A profile adds constraints to the commands of a space (`profiles.py`, `profiles.go`). The
source has them as methods of a class, or of an interface; `Profile` is the structure of
these methods. `Profile.generic` accepts everything. `FedAvg` holds the constraints of
federated averaging: which base a training update or a global model names, which updates an
acquisition of `main` selects, and which record may become the next target of `main`.
-/

set_option autoImplicit false

namespace Hf2l.Exchange

/-- What a profile sees of a record (`profile_record`). -/
structure Descriptor where
  id : Id
  kind : String
  creator : Id
  metadata : Fields
  creatorBindings : Fields
  publishedAt : Option Time
  state : RecordState

def Record.descriptor (r : Record) : Descriptor :=
  ⟨r.id, r.kind, r.creator, r.metadata, r.creatorBindings, r.publishedAt, r.state⟩

/-- What an acquisition selects its inputs by. -/
structure SelectionSpec where
  kind : String
  baseId : Id
  minimum : Nat
  minimumError : String

structure Profile where
  name : String
  policyDefaults : String → List Role × Visibility
  validatePolicy : String → List Role → Visibility → Except Error Unit
  validateBindings : Fields → List Fields → Except Error Unit
  recordBaseId : String → Fields → Option Id
  validatePublish : String → Fields → Fields → Fields → Except Error Unit
  selectionSpec : String → Id → Option SelectionSpec
  inputEligible : Descriptor → Option Member → Bool
  completionInputs : Descriptor → List Descriptor → String → Except Error (List Descriptor)
  validateType : String → Fields → Except Error Unit
  validateRecord : String → Fields → Fields → Except Error Unit
  validateReference : String → Descriptor → List Descriptor → Option Id → Except Error Unit
  selectInputs : List Descriptor → Id → List Descriptor

namespace Profile

/-- An input whose owner has lost its standing since the acquisition is refused. -/
def validateInputCurrent (p : Profile) (record : Descriptor) (member : Option Member) :
    Except Error Unit :=
  refuse (p.inputEligible record member = false) (err 409 "input_participant_revoked")

def defaultPolicy : List Role × Visibility := ([.contributor, .publisher], .shared)

def generic : Profile where
  name := "generic.v1"
  policyDefaults _ := defaultPolicy
  validatePolicy _ _ _ := .ok ()
  validateBindings _ _ := .ok ()
  recordBaseId _ _ := none
  validatePublish _ _ _ _ := .ok ()
  selectionSpec _ _ := none
  inputEligible _ _ := true
  completionInputs _ frozen _ := .ok frozen
  validateType _ _ := .ok ()
  validateRecord _ _ _ := .ok ()
  validateReference _ _ _ _ := .ok ()
  selectInputs records _ := records

end Profile

namespace FedAvg

def minimumParticipants : Nat := 2

/-- `bindings.get("participant")`. -/
def participant (bindings : Fields) : Option Json := bindings.get "participant"

/-- The participant a record is attributed to, when it is a text. -/
def participantText (bindings : Fields) : Option String := (participant bindings).bind Json.str?

/-- `metadata.get("base_record_id")`, when it is a text. -/
def baseText (metadata : Fields) : Option String := (metadata.get "base_record_id").bind Json.str?

/-- `metadata.get("inputs", [])`: an absent list is empty, a null one is not a list. -/
def declaredInputs (metadata : Fields) : Json := (metadata.lookup "inputs").getD (.arr [])

def policyDefaults (kind : String) : List Role × Visibility :=
  if kind = "training.update" then ([.contributor], .private)
  else if kind = "model.global" then ([.publisher], .shared)
  else Profile.defaultPolicy

/-- `set(roles) == {role}`. -/
def onlyRole (roles : List Role) (role : Role) : Bool :=
  !roles.isEmpty && roles.all (· = role)

def validatePolicy (kind : String) (roles : List Role) (visibility : Visibility) :
    Except Error Unit := do
  refuse (kind = "model.global" ∧ (onlyRole roles .publisher = false ∨ visibility ≠ .shared))
    (err 422 "profile_policy_conflict")
  refuse (kind = "training.update" ∧ onlyRole roles .contributor = false)
    (err 422 "profile_policy_conflict")

def validateBindings (bindings : Fields) (others : List Fields) : Except Error Unit :=
  match participant bindings with
  | none => .ok ()
  | some (.str p) => do
    refuse (p = "" ∨ p.length > 128) (err 422 "invalid_participant")
    refuse (others.any (participantText · = some p) = true) (err 409 "participant_already_bound")
  | some _ => .error (err 422 "invalid_participant")

/-- Only updates and global models name a base. `validateRecord` runs first and leaves no
value here that is neither absent nor a text. -/
def recordBaseId (kind : String) (metadata : Fields) : Option Id :=
  if kind = "training.update" ∨ kind = "model.global" then baseText metadata else none

/-- A positive integer: truth values and floats are refused. -/
def positiveInt : Option Json → Bool
  | some (.int n) => decide (1 ≤ n)
  | _ => false

def validateRecord (kind : String) (metadata creatorBindings : Fields) : Except Error Unit :=
  if kind = "training.update" then do
    refuse (((participantText creatorBindings).all fun p => p = "" ∨ p.length > 128) = true)
      (err 422 "participant_binding_required")
    refuse (((baseText metadata).all (· = "")) = true) (err 422 "round_base_required")
    refuse (positiveInt (metadata.get "sample_count") = false) (err 422 "invalid_sample_count")
    refuse ((metadata.lookup "participant").isSome = true)
      (err 422 "participant_is_server_attributed")
  else if kind = "model.global" then do
    let inputs ← found (err 422 "invalid_result_inputs") (declaredInputs metadata).strings?
    refuse ("" ∈ inputs) (err 422 "invalid_result_inputs")
    refuse (¬ inputs.Nodup) (err 422 "invalid_result_inputs")
    refuse ((metadata.get "base_record_id").isSome = true ∧ baseText metadata = none)
      (err 422 "invalid_round_base")
  else .ok ()

def validatePublish (kind : String) (metadata recordBindings currentBindings : Fields) :
    Except Error Unit := do
  validateRecord kind metadata recordBindings
  refuse (kind = "training.update" ∧ Fields.eqv recordBindings currentBindings = false)
    (err 409 "participant_binding_changed")

def selectionSpec (referenceName : String) (baseId : Id) : Option SelectionSpec :=
  if referenceName = "main" then
    some ⟨"training.update", baseId, minimumParticipants, "insufficient_participants"⟩
  else none

def inputEligible (record : Descriptor) (member : Option Member) : Bool :=
  if record.kind ≠ "training.update" then true
  else match member with
    | some m => decide (.contributor ∈ m.roles) && Fields.eqv m.bindings record.creatorBindings
    | none => false

/-- Two participants are one entry of a set. -/
def sameParticipant : Option Json → Option Json → Bool
  | some a, some b => Json.eqv a b
  | none, none => true
  | _, _ => false

/-- The declared inputs of the result, each looked up among the frozen ones. -/
def completionInputs (result : Descriptor) (frozen : List Descriptor) (referenceName : String) :
    Except Error (List Descriptor) :=
  if referenceName ≠ "main" then .ok frozen else do
    let declared ← found (err 409 "invalid_result_inputs") (declaredInputs result.metadata).strings?
    refuse (¬ declared.Nodup) (err 409 "invalid_result_inputs")
    let used ← found (err 409 "result_provenance_mismatch")
      (declared.mapM fun rid => frozen.find? (·.id = rid))
    let participants := used.map fun r => participant r.creatorBindings
    refuse (used.length < minimumParticipants ∨
        ¬ participants.Pairwise (fun a b => sameParticipant a b = false) ∨
        participants.any (·.isNone) = true)
      (err 409 "insufficient_participants")
    return used

def annotations : List String := ["title", "description", "$comment", "examples", "default"]

/-- The compulsory fields of a kind and their types. -/
def expectedFields (kind : String) : List (String × String) :=
  if kind = "training.update" then [("base_record_id", "string"), ("sample_count", "integer")]
  else [("inputs", "array"), ("base_record_id", "string")]

/-- One compulsory field against the schema's properties. -/
def validateField (schema properties : Fields) (field : String × String) : Except Error Unit :=
  let conflict : Error := ⟨422, "profile_schema_conflict", field.1⟩
  match properties.lookup field.1 with
  | some (.obj spec) =>
    refuse ((Fields.get spec "type").bind Json.str? ≠ some field.2 ∨
      (spec.any fun f => f.1 ≠ "type" ∧ f.1 ∉ annotations) = true) conflict
  | some _ => .error conflict
  | none =>
    match schema.lookup "additionalProperties" with
    | some (.bool false) => .error conflict
    | _ => .ok ()

def validateType (kind : String) (schema : Fields) : Except Error Unit :=
  if kind ≠ "training.update" ∧ kind ≠ "model.global" then .ok () else do
    refuse ((schema.any fun f =>
        f.1 ∉ ["$schema", "type", "properties", "required", "additionalProperties"] ∧
        f.1 ∉ annotations) = true) (err 422 "profile_schema_conflict")
    match (schema.lookup "additionalProperties").getD (.bool true) with
    | .bool _ =>
      let properties := match schema.lookup "properties" with
        | some (.obj fields) => fields
        | _ => []
      (expectedFields kind).forM (validateField schema properties)
    | _ => .error (err 422 "profile_schema_conflict")

/-- Each input is an update on `base` from a participant that no earlier input has. -/
def roundInputs (base : Id) : List String → List Descriptor → Bool
  | _, [] => true
  | seen, item :: rest =>
    match participantText item.creatorBindings with
    | some p => item.kind = "training.update" && baseText item.metadata = some base &&
        p ≠ "" && p ∉ seen && roundInputs base (p :: seen) rest
    | none => false

/-- The next target of `main`. `malformed` is the error of inputs that are not a list of
texts. -/
def validateReferenceWith (malformed : Error) (name : String) (record : Descriptor)
    (inputs : List Descriptor) (baseRecordId : Option Id) : Except Error Unit :=
  if name ≠ "main" then .ok () else do
    refuse (record.kind ≠ "model.global") (err 422 "profile_reference_kind")
    let declared ← found malformed (declaredInputs record.metadata).strings?
    match baseRecordId with
    | none =>
      refuse ((record.metadata.get "base_record_id").isSome = true ∨ declared ≠ [])
        (err 409 "initial_model_has_provenance")
    | some base =>
      refuse (inputs = []) (err 409 "coordination_required")
      refuse (inputs.length < minimumParticipants) (err 409 "insufficient_participants")
      refuse (roundInputs base [] inputs = false) (err 409 "invalid_round_inputs")
      refuse (baseText record.metadata ≠ some base ∨ (declared.all (· ∈ inputs.map (·.id))) = false
          ∨ (inputs.all (·.id ∈ declared)) = false)
        (err 409 "result_provenance_mismatch")

def validateReference := validateReferenceWith Error.internal

/-- `(published_at or 0, id)` of `a` is greater than that of `b`. -/
def later (a b : Descriptor) : Bool :=
  let ta := a.publishedAt.getD 0
  let tb := b.publishedAt.getD 0
  ta > tb || (ta = tb && a.id > b.id)

/-- The entry of participant `p` becomes `record` if it is absent or older. -/
def keepLatest (p : String) (record : Descriptor) :
    List (String × Descriptor) → List (String × Descriptor)
  | [] => [(p, record)]
  | (q, previous) :: rest =>
    if q = p then (q, if later record previous then record else previous) :: rest
    else (q, previous) :: keepLatest p record rest

/-- One pass of the selection loop. -/
def selectStep (base : Id) (selected : List (String × Descriptor)) (record : Descriptor) :
    List (String × Descriptor) :=
  if record.state ≠ .published ∨ record.kind ≠ "training.update" then selected
  else if baseText record.metadata ≠ some base then selected
  else match participantText record.creatorBindings with
    | some p => if p = "" then selected else keepLatest p record selected
    | none => selected

/-- Per participant the latest update on the base, in the order of the participants. -/
def selectInputs (records : List Descriptor) (base : Id) : List Descriptor :=
  ((records.foldl (selectStep base) []).insertionSort (fun a b => a.1 ≤ b.1)).map (·.2)

def profile : Profile where
  name := "fedavg.v1"
  policyDefaults := policyDefaults
  validatePolicy := validatePolicy
  validateBindings := validateBindings
  recordBaseId := recordBaseId
  validatePublish := validatePublish
  selectionSpec := selectionSpec
  inputEligible := inputEligible
  completionInputs := completionInputs
  validateType := validateType
  validateRecord := validateRecord
  validateReference := validateReference
  selectInputs := selectInputs

end FedAvg

/-- The static registry. -/
def getProfile (name : String) : Except Error Profile :=
  if name = "generic.v1" then .ok Profile.generic
  else if name = "fedavg.v1" then .ok FedAvg.profile
  else .error (err 422 "unknown_profile")

end Hf2l.Exchange
