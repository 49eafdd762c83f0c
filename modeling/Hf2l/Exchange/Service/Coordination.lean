import Hf2l.Exchange.Service.Records

/-!
# `Hf2l.Exchange.Service.Coordination`: references and acquisitions

A reference is a name for a published record with a generation, which a caller compares and
swaps, and a fence. An acquisition is a lease on a reference: it freezes the input records,
raises the fence, and lets its holder move the reference once.
-/

set_option autoImplicit false

namespace Hf2l.Exchange.Service

open Lib

variable (d : Dialect)

/-! ### References -/

/-- `active_acquisition`: one that holds the reference and its lease. -/
def activeAcquisition (db : Db) (name : String) (now : Time) : Bool :=
  db.registry.coordinations.any fun c =>
    c.referenceName = name && c.state = .active && c.leaseUntil > now

/-- A target of a reference is published and shared. -/
def checkTarget (r : Record) : Except Error Unit :=
  refuse (r.state ≠ .published ∨ r.shared = false) (err 409 "reference_requires_shared_record")

def putReference.put (p : Principal) (member : Member) (name : String) (recordId : Id)
    (expectedToken : String) (clock : Clock) (db : Db) : Except Error (Db × Response) := do
  let r ← record db recordId member p false
  checkTarget r
  match db.reference name with
  | none => do
    refuse (expectedToken ≠ "*") (err 412 "reference_version_mismatch")
    refuse (activeAcquisition db name (clock 1) = true) (err 409 "acquisition_active")
    let profile ← d.profiles db.ledger.space.profile
    profile.validateReference name r.descriptor [] none
    let db := { db with registry := db.registry.createReference name r.id }
    let db := db.emit "reference.updated" p.id (some r.id)
      [("name", .str name), ("token", .str "1")] (clock 2)
    return (db, .reference name r.id "1")
  | some reference => do
    refuse (Nat.repr reference.generation ≠ expectedToken) (err 412 "reference_version_mismatch")
    refuse (activeAcquisition db name (clock 1) = true) (err 409 "acquisition_active")
    let profile ← d.profiles db.ledger.space.profile
    profile.validateReference name r.descriptor [] (some reference.recordId)
    let token := Nat.repr (reference.generation + 1)
    let db := { db with registry := db.registry.moveReference reference r.id }
    let db := db.emit "reference.updated" p.id (some r.id)
      [("name", .str name), ("token", .str token)] (clock 2)
    return (db, .reference name r.id token)

def putReference (env : Env) (p : Principal) (name : String) (recordId : Id)
    (expectedToken : String) (key : String) (clock : Clock) (db : Db) :
    Except Error (Db × Response) := do
  validateReferenceName name
  let member ← transaction env db p .write (clock 0)
  require member [.publisher]
  once env db p ("reference.put:" ++ name) key (.reference recordId expectedToken) (clock 3)
    (putReference.put d p member name recordId expectedToken clock db)

/-! ### Acquisitions -/

/-- `acquisition_dict`. -/
def acquisitionDict (db : Db) (c : Coordination) : AcquisitionView where
  id := c.id
  reference := c.referenceName
  expectedToken := Nat.repr c.expectedGeneration
  holder := c.holder
  fence := c.fence
  state := c.state
  leaseUntil := c.leaseUntil
  inputRecordIds := (db.inputIds c.id).insertionSort (· ≤ ·)
  resultRecordId := c.resultRecordId

/-- `_attempt`. -/
def attemptRow (db : Db) (attemptId : Id) : Except Error Coordination :=
  found (err 404 "acquisition_not_found") (db.coordination attemptId)

/-- The published records a profile selects its inputs from. -/
def candidates (db : Db) (spec : SelectionSpec) : List Descriptor :=
  (db.ledger.records.filter fun r =>
    r.kind = spec.kind ∧ r.state = .published ∧
      r.baseRecordId = some spec.baseId).map Record.descriptor

/-- The inputs of an acquisition: those asked for, which a profile that selects inputs has to
select too, or all it selects if none are asked for. -/
def selectIds (db : Db) (profile : Profile) (reference : Reference) (ids : List Id) :
    Except Error (List Id) :=
  match profile.selectionSpec reference.name reference.recordId with
  | none => .ok ids
  | some spec => do
    let eligible :=
      (candidates db spec).filter fun d => profile.inputEligible d (db.member d.creator)
    let selected := ((profile.selectInputs eligible reference.recordId).map (·.id)).dedup
    refuse (ids ≠ [] ∧ ids.all (· ∈ selected) = false) (err 409 "profile_input_selection_mismatch")
    let chosen := if ids = [] then selected.insertionSort (· ≤ ·) else ids
    refuse (chosen.length < spec.minimum) (err 409 spec.minimumError)
    return chosen

def acquire.acquireOnce (env : Env) (p : Principal) (member : Member) (body : AcquisitionBody)
    (clock : Clock) (db : Db) : Except Error (Db × Response) := do
  validateReferenceName body.reference
  let reference ← found (err 404 "reference_not_found") (db.reference body.reference)
  refuse (Nat.repr reference.generation ≠ body.expectedToken) (err 412 "reference_version_mismatch")
  let _ ← record db reference.recordId member p false
  refuse (activeAcquisition db body.reference (clock 1) = true) (err 409 "acquisition_busy")
  refuse (body.inputRecordIds.length > 1000 ∨ ¬ body.inputRecordIds.Nodup)
    (err 422 "invalid_input_records")
  let profile ← d.profiles db.ledger.space.profile
  let ids ← selectIds db profile reference body.inputRecordIds
  let inputs ← ids.mapM fun id => record db id member p false
  refuse (inputs.any (·.state ≠ .published) = true) (err 409 "input_not_published")
  let seconds := body.leaseSeconds.getD env.coordinationSeconds
  refuse (seconds < 10 ∨ 3600 < seconds) (err 422 "invalid_lease_seconds")
  let id := db.ledger.fresh 0
  let registry :=
    db.registry.grant reference id p.id (clock 2 + seconds) (clock 3) (inputs.map (·.id))
  let db := { db with registry, ledger := db.ledger.draw 1 }.emit "acquisition.started" p.id none
    [("id", .str id), ("reference", .str body.reference)] (clock 4)
  let row ← attemptRow db id
  return (db, .acquisition (acquisitionDict db row))

/-- The identifier in the response of `acquire.acquireOnce`. -/
def acquisitionId : Response → Except Error Id
  | .acquisition view => .ok view.id
  | _ => .error Error.internal

/-- `acquire`. A replay has to find its acquisition still held, or completed. -/
def acquire (env : Env) (p : Principal) (body : AcquisitionBody) (key : String) (clock : Clock)
    (db : Db) : Except Error (Db × Response) := do
  let member ← transaction env db p .write (clock 0)
  require member [.publisher]
  let (db, result) ← once env db p "acquisition.create" key (.acquisition body) (clock 5)
    (acquire.acquireOnce d env p member body clock db)
  let id ← acquisitionId result
  let c ← attemptRow db id
  refuse (c.state = .active ∧ c.leaseUntil ≤ clock 6) (err 409 "acquisition_expired")
  refuse (c.state ≠ .active ∧ c.state ≠ .completed) (err 409 "acquisition_not_active")
  return (db, .acquisition (acquisitionDict db c))

/-- `check_attempt`: the caller holds the acquisition, its lease and the reference's fence. -/
def checkAttempt (db : Db) (c : Coordination) (p : Principal) (fence : Nat) (now : Time) :
    Except Error Reference := do
  refuse (c.holder ≠ p.id) (err 403 "acquisition_holder_required")
  let reference ← found Error.internal (db.reference c.referenceName)
  refuse (c.state ≠ .active ∨ c.leaseUntil ≤ now ∨ fence ≠ c.fence ∨ reference.fence ≠ fence)
    (err 409 "acquisition_not_active")
  return reference

def renew (env : Env) (p : Principal) (attemptId : Id) (fence : Nat) (clock : Clock) (db : Db) :
    Except Error (Db × Response) := do
  let member ← transaction env db p .write (clock 0)
  require member [.publisher]
  let c ← attemptRow db attemptId
  let _ ← checkAttempt db c p fence (clock 1)
  let c' : Coordination := { c with leaseUntil := clock 2 + env.coordinationSeconds }
  let db := { db with registry := db.registry.putCoordination c' }
  return (db, .acquisition (acquisitionDict db c'))

def abandon (env : Env) (p : Principal) (attemptId : Id) (fence : Nat) (clock : Clock) (db : Db) :
    Except Error (Db × Response) := do
  let member ← transaction env db p .write (clock 0)
  require member [.publisher]
  let c ← attemptRow db attemptId
  let _ ← checkAttempt db c p fence (clock 1)
  let c' : Coordination := { c with state := .abandoned }
  let db := { db with registry := db.registry.putCoordination c' }.emit "acquisition.abandoned" p.id
    none [("id", .str c.id)] (clock 2)
  return (db, .acquisition (acquisitionDict db c'))

/-- The inputs the result was made from, as the profile sees them. -/
def usedInputs (db : Db) (profile : Profile) (member : Member) (p : Principal) (c : Coordination)
    (result : Record) : Except Error (List Descriptor) := do
  let inputs ← (db.inputIds c.id).mapM fun id => record db id member p false
  let used ← profile.completionInputs result.descriptor (inputs.map Record.descriptor)
      c.referenceName
  refuse (used.any (·.state ≠ .published) = true) (err 409 "input_not_published")
  used.forM fun d => profile.validateInputCurrent d (db.member d.creator)
  return used

/-- The acquisition that moved its reference to `result`. -/
def completed (c : Coordination) (result : Id) : Coordination :=
  { c with state := .completed, resultRecordId := some result }

def complete.completeOnce (p : Principal) (member : Member) (c : Coordination)
    (body : CompletionBody) (clock : Clock) (db : Db) : Except Error (Db × Response) := do
  let reference ← checkAttempt db c p body.fence (clock 1)
  refuse (reference.generation ≠ c.expectedGeneration) (err 412 "reference_version_mismatch")
  let result ← record db body.resultRecordId member p false
  checkTarget result
  let profile ← d.profiles db.ledger.space.profile
  let used ← usedInputs db profile member p c result
  profile.validateReference c.referenceName result.descriptor used (some reference.recordId)
  let c' := completed c result.id
  let db := { db with registry :=
    (db.registry.moveReference reference result.id).putCoordination c' }
  let db := db.emit "reference.updated" p.id (some result.id)
    [("name", .str reference.name), ("token", .str (Nat.repr (reference.generation + 1)))] (clock 2)
  let db := db.emit "acquisition.completed" p.id (some result.id) [("id", .str c.id)] (clock 3)
  return (db, .acquisition (acquisitionDict db c'))

/-- `complete`. A completed acquisition answers again if the same completion is asked for. -/
def complete (env : Env) (p : Principal) (attemptId : Id) (body : CompletionBody) (key : String)
    (clock : Clock) (db : Db) : Except Error (Db × Response) := do
  let member ← transaction env db p .write (clock 0)
  require member [.publisher]
  let c ← attemptRow db attemptId
  refuse (c.holder ≠ p.id) (err 403 "acquisition_holder_required")
  if c.state = .completed then do
    refuse (c.fence ≠ body.fence ∨ c.resultRecordId ≠ some body.resultRecordId)
      (err 409 "completion_conflict")
    return (db, .acquisition (acquisitionDict db c))
  else
    once env db p ("acquisition.complete:" ++ attemptId) key (.completion body) (clock 4)
      (complete.completeOnce d p member c body clock db)

end Hf2l.Exchange.Service
