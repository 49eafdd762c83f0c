import Hf2l.Exchange.Ledger.Sound
import Hf2l.Exchange.Service.Command
import Hf2l.Lib.Checked

/-!
# `Hf2l.Exchange.Service.Steps`: what a command that succeeded has done

`Committed` lists what the commands do to the ledger, the registry, the policies and the
managed space, with what they have checked. Every command that returns has made one of these
steps (`Command.run_committed`), and the invariants of the later modules are proved from the
list.

A replay under a known idempotency key and a command that only touches other tables are
`idle`. Steps are stated up to `Db.Same`, which forgets the tables no invariant reads: events
and operations, members, grants and revisions.
-/

set_option autoImplicit false

namespace Hf2l.Exchange

open Lib Lib.Checked

/-- The tables that the invariants read are the same. -/
structure Db.Same (db db' : Db) : Prop where
  ledger : db'.ledger = db.ledger
  registry : db'.registry = db.registry
  policies : db'.policies = db.policies
  managed : db'.managed = db.managed

/-- The database with another ledger. -/
def Db.withLedger (db : Db) (ledger : Ledger) : Db := { db with ledger }

/-- The database with another registry. -/
def Db.withRegistry (db : Db) (registry : Registry) : Db := { db with registry }

namespace Db.Same

theorem refl (db : Db) : db.Same db := ⟨rfl, rfl, rfl, rfl⟩

theorem trans {a b c : Db} (h : a.Same b) (h' : b.Same c) : a.Same c :=
  ⟨h'.ledger.trans h.ledger, h'.registry.trans h.registry, h'.policies.trans h.policies,
    h'.managed.trans h.managed⟩

theorem emit (db : Db) (type : String) (principalId : Id) (recordId : Option Id) (payload : Fields)
    (now : Time) : db.Same (db.emit type principalId recordId payload now) :=
  ⟨rfl, rfl, rfl, rfl⟩

end Db.Same

/-- A base that is named and not empty is a published record. -/
def BasePublished (l : Ledger) (base : Option Id) : Prop :=
  ∀ id, base = some id → id ≠ "" → ∃ x ∈ l.records, x.id = id ∧ x.state = .published

namespace Service

/-- The profile of the space accepts the content of a record and gives it its base. -/
def Accepted (d : Dialect) (l : Ledger) (kind : String) (metadata bindings : Fields)
    (base : Option Id) : Prop :=
  ∃ profile, d.profiles l.space.profile = .ok profile ∧
    profile.validateRecord kind metadata bindings = .ok () ∧
      base = profile.recordBaseId kind metadata

/-- The record can be the target of a reference. -/
structure Target (l : Ledger) (r : Record) : Prop where
  mem : r ∈ l.records
  published : r.state = .published
  shared : r.shared = true

/-- The inputs of a new acquisition. -/
structure Frozen (d : Dialect) (db : Db) (reference : Reference) (inputs : List Record) : Prop where
  mem : ∀ r ∈ inputs, r ∈ db.ledger.records
  published : ∀ r ∈ inputs, r.state = .published
  selected : ∃ profile asked, d.profiles db.ledger.space.profile = .ok profile ∧ asked.Nodup ∧
    selectIds db profile reference asked = .ok (inputs.map (·.id))

/-- An acquisition that holds its reference. -/
structure Held (db : Db) (c : Coordination) (reference : Reference) : Prop where
  mem : c ∈ db.registry.coordinations
  found : db.reference c.referenceName = some reference
  active : c.state = .active
  fence : c.fence = reference.fence

/-- The commands that amend or stop records. -/
inductive Deed where
  | amend (id : Id)
  | withdraw (id : Id)
  | retire
  | other

/-- The draft that is amended. -/
def Deed.amends : Deed → Option Id
  | .amend id => some id
  | _ => none

/-- Records are stopped. -/
def Deed.stops : Deed → Bool
  | .withdraw _ | .retire => true
  | _ => false

/-- What a command does, up to the tables no invariant reads. -/
inductive Committed (d : Dialect) (db : Db) : Deed → Db → Prop
  | idle {k : Deed} {db' : Db} (hk : k = .retire ∨ k = .other) (h : db.Same db') :
    Committed d db k db'
  | manage {db' : Db} (m : ManagedSpace) (hm : db.managed = none) (h0 : m.retiredAt = none)
    (h : Db.Same { db with managed := some m } db') : Committed d db .other db'
  | limits {db' : Db} (s : Space) (hs : Respaced db.ledger.space s)
    (h : (db.withLedger { db.ledger with space := s }).Same db') : Committed d db .other db'
  | register {db' : Db} (kind : String) (roles : List Role) (visibility : Visibility)
    (h : (addPolicy (db.withLedger (db.ledger.draw 1)) kind roles visibility).Same db') :
    Committed d db .other db'
  | policy {db' : Db} (policy policy' : KindPolicy) (hp : db.policy policy.kind = some policy)
    (hk : policy'.kind = policy.kind)
    (hr : policy'.visibility = .private → ∀ reference ∈ db.registry.references,
      ∀ r ∈ db.ledger.record reference.recordId, r.kind ≠ policy.kind)
    (h : Db.Same { db with
      policies := Table.put KindPolicy.kind policy' db.policies
      ledger := db.ledger.share policy.kind (policy'.visibility = Visibility.shared) } db') :
    Committed d db .other db'
  | create {db' : Db} (r : Record) (bs : List Blob) (policy : KindPolicy)
    (ho : Opened db.ledger r bs)
    (hp : db.policy r.kind = some policy)
    (hs : r.shared = decide (policy.visibility = Visibility.shared))
    (ha : Accepted d db.ledger r.kind r.metadata r.creatorBindings r.baseRecordId)
    (h : (db.withLedger ((db.ledger.insertRecord r bs).draw (1 + bs.length))).Same db') :
    Committed d db .other db'
  | patch {db' : Db} (r : Record) (metadata : Fields) (size : Nat) (base : Option Id)
    (hr : r ∈ db.ledger.records)
    (hd : r.state = .draft) (ha : Accepted d db.ledger r.kind metadata r.creatorBindings base)
    (hb : baseExists db.ledger base = true)
    (hq : db.ledger.space.metadataBytes - r.metadataBytes + size ≤
      db.ledger.space.quotaMetadataBytes)
    (h : (db.withLedger ((db.ledger.putRecord (amended r metadata size base)).addMetadataBytes
      (size - r.metadataBytes))).Same db') : Committed d db (.amend r.id) db'
  | publish {db' : Db} (r : Record) (policy : KindPolicy) (t : Time) (hr : r ∈ db.ledger.records)
    (hd : r.state = .draft) (hp : db.policy r.kind = some policy)
    (hb : BasePublished db.ledger r.baseRecordId)
    (hv : ∀ b ∈ db.ledger.blobsOf r.id, verifiedAsDeclared b = true)
    (h : (db.withLedger (db.ledger.putRecord (publishedAs r policy t))).Same db') :
    Committed d db .other db'
  | withdraw {db' : Db} (r : Record) (now : Time) (hr : r ∈ db.ledger.records)
    (hb : ∀ x ∈ db.ledger.records, x.state = .published → x.baseRecordId ≠ some r.id)
    (href : ∀ reference ∈ db.registry.references, reference.recordId ≠ r.id)
    (h : (db.withLedger (d.rule.stop stoppedState now db.ledger [r])).Same db') :
    Committed d db (.withdraw r.id) db'
  | purge {db' : Db} (r : Record) (hr : r ∈ db.ledger.records) (ht : r.state.terminal = true)
    (hblobs : ∀ b ∈ db.ledger.blobsOf r.id,
      b.state = .cleaned ∧ ∀ a ∈ db.ledger.attemptsOf b.id, a.mutationTokens = [])
    (hb : ∀ x ∈ db.ledger.records, x.baseRecordId ≠ some r.id)
    (href : ∀ reference ∈ db.registry.references, reference.recordId ≠ r.id)
    (h : (db.withLedger (db.ledger.removeRecord r)).Same db') : Committed d db .other db'
  | retire {db' : Db} (m : ManagedSpace) (now : Time) (hm : m.retiredAt.isSome = true)
    (h : Db.Same { db with
      managed := some m, ledger := d.rule.stop stoppedState now db.ledger db.ledger.records } db') :
    Committed d db .retire db'
  | createReference {db' : Db} (name : String) (r : Record) (hn : db.reference name = none)
    (ht : Target db.ledger r)
    (hv : ∃ profile, d.profiles db.ledger.space.profile = .ok profile ∧
      profile.validateReference name r.descriptor [] none = .ok ())
    (h : (db.withRegistry (db.registry.createReference name r.id)).Same db') :
    Committed d db .other db'
  | moveReference {db' : Db} (reference : Reference) (r : Record)
    (hn : db.reference reference.name = some reference) (ht : Target db.ledger r)
    (hv : ∃ profile, d.profiles db.ledger.space.profile = .ok profile ∧
      profile.validateReference reference.name r.descriptor [] (some reference.recordId) = .ok ())
    (h : (db.withRegistry (db.registry.moveReference reference r.id)).Same db') :
    Committed d db .other db'
  | acquire {db' : Db} (reference : Reference) (holder : Id) (leaseUntil createdAt : Time)
    (inputs : List Record) (hn : db.reference reference.name = some reference)
    (hf : Frozen d db reference inputs)
    (h : ((db.withLedger (db.ledger.draw 1)).withRegistry
      (db.registry.grant reference (db.ledger.fresh 0)
      holder leaseUntil createdAt (inputs.map (·.id)))).Same db') : Committed d db .other db'
  | renew {db' : Db} (c : Coordination) (reference : Reference) (t : Time)
    (hc : Held db c reference)
    (h : (db.withRegistry (db.registry.putCoordination { c with leaseUntil := t })).Same db') :
    Committed d db .other db'
  | abandon {db' : Db} (c : Coordination) (reference : Reference) (hc : Held db c reference)
    (h : (db.withRegistry (db.registry.putCoordination { c with state := .abandoned })).Same db') :
    Committed d db .other db'
  | complete {db' : Db} (c : Coordination) (reference : Reference) (r : Record)
    (hc : Held db c reference)
    (hg : reference.generation = c.expectedGeneration) (ht : Target db.ledger r)
    (hv : ∃ profile member p used, d.profiles db.ledger.space.profile = .ok profile ∧
      usedInputs db profile member p c r = .ok used ∧
      profile.validateReference c.referenceName r.descriptor used
        (some reference.recordId) = .ok ())
    (h : (db.withRegistry ((db.registry.moveReference reference r.id).putCoordination
      (completed c r.id))).Same db') : Committed d db .other db'

/-! ### The parts of the commands -/

section Parts

variable {d : Dialect} {env : Env} {db db' : Db} {p : Principal} {member : Member}

variable {now : Time} {id : Id} {r : Record}

/-- A guarded command has answered from the operation of its key, or its action returned and
the operation is stored. -/
theorem once_cases {scope key : String} {request : Request}
    {action : Except Error (Db × Response)} {response : Response}
    (h : once env db p scope key request now action = .ok (db', response)) :
    (∃ o, db.operation p.id scope key = some o ∧ o.requestHash = env.digest request ∧ db' = db ∧
        response = o.response) ∨
      (db.operation p.id scope key = none ∧ ∃ db₁, action = .ok (db₁, response) ∧
        db' = { db₁ with operations :=
          db₁.operations ++ [⟨p.id, scope, key, env.digest request, response, now⟩] }) := by
  simp only [once, block_ok, refuse_ok] at h
  obtain ⟨-, h⟩ := h
  split at h
  · rename_i o ho
    simp only [block_ok, refuse_ok, not_not] at h
    exact Or.inl ⟨o, ho, h.1, h.2.1.symm, h.2.2.symm⟩
  · rename_i ho
    simp only [block_ok] at h
    obtain ⟨⟨db₁, r⟩, ha, rfl, rfl⟩ := h
    exact Or.inr ⟨ho, db₁, ha, rfl⟩

theorem record_ok {write : Bool} (h : record db id member p write = .ok r) :
    db.ledger.record id = some r := by
  simp only [record, bind_ok, found_ok] at h
  obtain ⟨x, hx, h⟩ := h
  split at h
  · simp only [block_ok] at h
    rw [hx, h.2.2]
  · simp only [block_ok] at h
    rw [hx, h.2]

theorem record_mem {write : Bool} (h : record db id member p write = .ok r) :
    r ∈ db.ledger.records ∧ r.id = id :=
  Table.get_mem (record_ok h)

theorem withdrawable_mem (h : withdrawable db id member p = .ok r) :
    r ∈ db.ledger.records ∧ r.id = id := by
  unfold withdrawable at h
  split at h
  · exact Table.get_mem (found_ok.mp h)
  · exact record_mem h

theorem checkBase_published {base : Option Id} (h : checkBase db base member p true = .ok ()) :
    BasePublished db.ledger base := by
  intro id hid hne
  unfold checkBase at h
  split at h
  · simp at hid
  · simp only [Option.some.injEq] at hid
    exact absurd hid.symm hne
  · rename_i id' _
    simp only [bind_ok, refuse_ok] at h
    obtain ⟨r, hr, hs⟩ := h
    obtain ⟨hmem, he⟩ := record_mem hr
    simp only [Option.some.injEq] at hid
    exact ⟨r, hmem, he.trans hid, by simpa using hs⟩

theorem checkTarget_ok (hr : r ∈ db.ledger.records) (h : checkTarget r = .ok ()) :
    Target db.ledger r := by
  simp only [checkTarget, refuse_ok, not_or, not_not] at h
  exact ⟨hr, h.1, by simpa using h.2⟩

theorem checkDraft_ok (h : checkDraft r now = .ok ()) : r.state = .draft := by
  simp only [checkDraft, block_ok, refuse_ok, not_not] at h
  exact h.1

theorem checkAttempt_ok {c : Coordination} {fence : Nat} {reference : Reference}
    (hc : c ∈ db.registry.coordinations) (h : checkAttempt db c p fence now = .ok reference) :
    Held db c reference := by
  simp only [checkAttempt, block_ok, refuse_ok, found_ok, not_or, not_not] at h
  obtain ⟨-, x, hx, ⟨hs, -, hf, hf'⟩, rfl⟩ := h
  exact ⟨hc, hx, hs, hf.symm.trans hf'.symm⟩

theorem reference_name {name : String} {reference : Reference}
    (h : db.reference name = some reference) :
    reference ∈ db.registry.references ∧ reference.name = name :=
  Table.get_mem h

end Parts

/-! ### Attachments of a new record -/

section NewBlobs

variable {env : Env} {l : Ledger} {recordId : Id} {expiresAt : Time}
  {attachments : List AttachmentBody}

theorem newBlobs_ids : (newBlobs env l recordId expiresAt attachments).map Blob.id =
    (List.range (newBlobs env l recordId expiresAt attachments).length).map fun i =>
      l.fresh (i + 1) := by
  refine List.ext_getElem (by simp [newBlobs]) fun i h1 h2 => ?_
  simp [newBlobs]

theorem mem_newBlobs {b : Blob} (hb : b ∈ newBlobs env l recordId expiresAt attachments) :
    b.recordId = recordId ∧ b.state = .reserved ∧ b.pendingDeletion = false ∧
      b.objectKey = none := by
  obtain ⟨i, hi, rfl⟩ := List.mem_mapIdx.mp hb
  exact ⟨rfl, rfl, rfl, rfl⟩

theorem total_newBlobs :
    Table.total (fun b => (b.size : Int)) (newBlobs env l recordId expiresAt attachments) =
    (attachments.map fun a => (a.size.toNat : Int)).sum := by
  unfold Table.total
  refine congrArg List.sum (List.ext_getElem (by simp [newBlobs]) fun i h1 h2 => ?_)
  simp [newBlobs]

theorem checkAttachments_sum {paths : List String} {amount : Nat}
    (h : checkAttachments env paths attachments = .ok amount) :
    (amount : Int) = (attachments.map fun a => (a.size.toNat : Int)).sum := by
  induction attachments generalizing paths amount with
  | nil =>
    simp only [checkAttachments, Except.ok.injEq] at h
    simp [← h]
  | cons a rest ih =>
    simp only [checkAttachments, block_ok, refuse_ok] at h
    obtain ⟨-, -, -, -, n, hn, rfl⟩ := h
    rw [List.map_cons, List.sum_cons, ← ih hn]
    push_cast
    rfl

end NewBlobs

/-! ### What the commands call -/

section Calls

variable {d : Dialect} {db : Db} {p : Principal} {clock : Clock}

theorem release_same (d : Dialect) (db : Db) (r : Record) (state : Record → RecordState)
    (clock : Clock) :
    (db.withLedger (d.rule.stop state (clock 0) db.ledger [r])).Same
      (release d db r (state r) clock) := by
  unfold release ReleaseRule.stop
  rw [List.foldl_cons, List.foldl_nil]
  split_ifs
  · exact Db.Same.refl _
  · exact Db.Same.emit ..

/-- A list of records looked up one by one. -/
theorem mapM_record {member : Member} {ids : List Id} {rs : List Record}
    (h : ids.mapM (fun id => record db id member p false) = .ok rs) :
    rs.map (·.id) = ids ∧ ∀ r ∈ rs, r ∈ db.ledger.records := by
  induction ids generalizing rs with
  | nil =>
    rw [List.mapM_nil, pure_ok] at h
    simp [← h]
  | cons id ids ih =>
    simp only [List.mapM_cons, block_ok] at h
    obtain ⟨r, hr, rest, hrest, rfl⟩ := h
    obtain ⟨hids, hmem⟩ := ih hrest
    obtain ⟨hrm, hrid⟩ := record_mem hr
    refine ⟨by rw [List.map_cons, hids, hrid], ?_⟩
    intro x hx
    rcases List.mem_cons.mp hx with rfl | hx
    · exact hrm
    · exact hmem x hx

theorem attemptRow_mem {id : Id} {c : Coordination} (h : attemptRow db id = .ok c) :
    c ∈ db.registry.coordinations :=
  (Table.get_mem (found_ok.mp h)).1

theorem releaseAll_same (rs : List Record) (db : Db) :
    (db.withLedger (d.rule.stop stoppedState (clock 0) db.ledger rs)).Same
      (releaseAll d db rs clock) := by
  induction rs generalizing db with
  | nil => exact Db.Same.refl _
  | cons r rs ih =>
    have hone : (db.withLedger (d.rule.stop stoppedState (clock 0) db.ledger [r])).Same
        (release d db r (stoppedState r) clock) := release_same d db r stoppedState clock
    have hrest := ih (release d db r (stoppedState r) clock)
    have hledger : (release d db r (stoppedState r) clock).ledger = _ := hone.ledger
    refine ⟨?_, hrest.registry.trans hone.registry, hrest.policies.trans hone.policies,
      hrest.managed.trans hone.managed⟩
    refine hrest.ledger.trans ?_
    show d.rule.stop stoppedState (clock 0) (release d db r (stoppedState r) clock).ledger rs = _
    rw [hledger]
    rfl

/-- A limit that is set is not below the use, and within the range of a limit. -/
theorem limit_ok {limit : Option Int} {old usage : Int} (h : limitBelow limit usage = false) :
    limit.getD old = old ∨ usage ≤ limit.getD old := by
  cases limit with
  | none => exact Or.inl rfl
  | some n =>
    right
    simpa [limitBelow] using h

theorem addPolicy_same {db₁ db₂ : Db} {kind : String} {roles : List Role} {visibility : Visibility}
    (h : db₁.Same db₂) :
    (addPolicy db₁ kind roles visibility).Same (addPolicy db₂ kind roles visibility) := by
  have hp : db₂.policy kind = db₁.policy kind := by
    unfold Db.policy
    rw [h.policies]
  unfold addPolicy
  rw [hp]
  by_cases hk : (db₁.policy kind).isSome = true
  · rw [if_pos hk, if_pos hk]
    exact h
  · rw [if_neg hk, if_neg hk]
    exact ⟨h.ledger, h.registry, by rw [h.policies], h.managed⟩

end Calls

end Service

/-- What the command does to records. -/
def Command.deed : Command → Service.Deed
  | .patchRecord id _ _ => .amend id
  | .withdrawRecord id => .withdraw id
  | .retireManagedSpace _ _ => .retire
  | _ => .other

end Hf2l.Exchange
