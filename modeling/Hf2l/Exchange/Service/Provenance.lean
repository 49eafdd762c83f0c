import Hf2l.Exchange.Service.Integrity
import Hf2l.Lib.Forest

/-!
# `Hf2l.Exchange.Service.Provenance`: bases as a forest

The records of a space with their bases are a table of nodes with parents (`Db.links`). A
transaction writes that table in the ways of `Forest.Step`: a new record is added on a base that
is there, a purge removes one that is no base, and a patch hangs a draft elsewhere. `patch_record`
asks only that the new base is visible, so it can be the draft itself, or a draft made on it.

`Db.Disposable` is what `purge_record` asks of a record besides that it is no base. A set of
such records is purged in an order in which they can be removed from the forest.
-/

set_option autoImplicit false

namespace Hf2l.Exchange

open Lib Lib.Checked
open Lib.Descent (Parent)
open Relation (TransGen ReflTransGen)

def Record.link (r : Record) : Id × Option Id := (r.id, r.baseRecordId)

namespace Db

def links (db : Db) : List (Id × Option Id) := db.ledger.records.map Record.link

/-- The base of a record that is there. -/
def baseOf (db : Db) (id : Id) : Option Id := (db.ledger.record id).bind (·.baseRecordId)

/-- No record descends from itself. -/
def Acyclic (db : Db) : Prop := Descent.Acyclic db.baseOf

/-- `id` is `base` or one of the records that `base` descends from. -/
def Descends (db : Db) (base id : Id) : Prop := ReflTransGen (Parent db.baseOf) base id

theorem baseOf_eq (db : Db) : db.baseOf = Forest.parent db.links := by
  funext id
  unfold baseOf Forest.parent links Ledger.record Table.get
  rw [List.find?_map, Option.bind_map]
  rfl

end Db

/-! ### Writes of records -/

section Links

variable {records : List Record}

theorem links_put (r : Record) : (Table.put Record.id r records).map Record.link =
    Table.put Prod.fst r.link (records.map Record.link) := by
  unfold Table.put
  rw [List.map_map, List.map_map]
  exact List.map_congr_left fun x _ => apply_ite Record.link (x.id = r.id) r x

/-- A write that keeps the base is none. -/
theorem links_put_same (hk : Table.Keyed Prod.fst (records.map Record.link)) {r : Record}
    (r' : Record) (hr : r.link ∈ records.map Record.link) (h : r'.link = r.link) :
    (Table.put Record.id r' records).map Record.link = records.map Record.link := by
  rw [links_put, h]
  exact hk.put_self hr

theorem links_without (id : Id) : (records.filter fun r => decide (r.id ≠ id)).map Record.link =
    (records.map Record.link).filter fun e => decide (e.1 ≠ id) := by
  rw [List.filter_map]
  rfl

theorem keyed_links (hk : Table.Keyed Record.id records) :
    Table.Keyed Prod.fst (records.map Record.link) := by
  unfold Table.Keyed at hk ⊢
  rw [List.map_map]
  exact hk

end Links

/-- Records that are stopped keep their bases. -/
theorem ReleaseRule.stop_links (rule : ReleaseRule) (state : Record → RecordState) (now : Time)
    (rs : List Record) (l : Ledger) (hk : Table.Keyed Prod.fst (l.records.map Record.link))
    (hrs : ∀ r ∈ rs, r.link ∈ l.records.map Record.link) :
    (rule.stop state now l rs).records.map Record.link = l.records.map Record.link := by
  induction rs generalizing l with
  | nil => rfl
  | cons r rs ih =>
    have hrest : ∀ x ∈ rs, x.link ∈ l.records.map Record.link :=
      fun x hx => hrs x (List.mem_cons_of_mem r hx)
    rw [ReleaseRule.stop, List.foldl_cons]
    split_ifs
    · exact ih l hk hrest
    · have hone : (rule.release l r (state r) now).records.map Record.link =
        l.records.map Record.link := by
        rw [ReleaseRule.release_records]
        exact links_put_same hk (r.stopped (state r)) (hrs r List.mem_cons_self) rfl
      rw [← hone] at hk hrest
      exact (ih _ hk hrest).trans hone

/-! ### Transactions -/

/-- **A command writes the forest, and hangs nothing elsewhere but the draft it amends.** -/
theorem Service.Committed.forest {d : Dialect} {db db' : Db} {k : Service.Deed}
    (hs : db.ledger.Sound) (hc : Committed d db k db') :
    Forest.Step db.links k.amends db'.links := by
  have hk := keyed_links hs.records
  have hmem : ∀ r ∈ db.ledger.records, r.link ∈ db.links := fun r hr => List.mem_map_of_mem hr
  have hsame : db'.ledger.records.map Record.link = db.links →
      Forest.Step db.links none db'.links := by
    intro he
    unfold Db.links at he ⊢
    rw [he]
    exact .stay
  -- The base that the foreign key asks for is a node.
  have hbase : ∀ base, baseExists db.ledger base = true → ∀ x, base = some x →
      ∃ e ∈ db.links, e.1 = x := by
    intro base hb x hx
    obtain ⟨r, hr, rfl⟩ := baseExists_mem hb x hx
    exact ⟨r.link, hmem r hr, rfl⟩
  cases hc with
  | idle hk h =>
    rcases hk with rfl | rfl <;> exact hsame (by rw [h.ledger]; rfl)
  | manage m _ _ h | limits s _ h | createReference name r _ _ _ h
  | moveReference reference r _ _ _ h
  | acquire reference holder leaseUntil createdAt inputs _ _ h | renew c reference t _ h
  | abandon c reference _ h | complete c reference r _ _ _ _ h =>
    exact hsame (by rw [h.ledger]; rfl)
  | register kind roles visibility h =>
    refine hsame ?_
    rw [h.ledger]
    unfold addPolicy
    split_ifs <;> rfl
  | policy policy policy' _ _ _ h =>
    refine hsame ?_
    rw [h.ledger]
    show (db.ledger.records.map _).map _ = db.ledger.records.map _
    rw [List.map_map]
    refine List.map_congr_left fun r _ => ?_
    simp only [Function.comp_apply]
    split_ifs <;> rfl
  | create r bs policy ho _ _ _ h =>
    have hl : db'.links = db.links ++ [(r.id, r.baseRecordId)] := by
      unfold Db.links
      rw [h.ledger]
      exact List.map_append
    rw [hl]
    refine .add r.id r.baseRecordId (fun e he => ?_) (hbase _ ho.base)
    obtain ⟨x, hx, rfl⟩ := List.mem_map.mp he
    rw [ho.id]
    exact (hs.mintedRecords x hx).ne_fresh 0
  | patch r metadata size base hr _ _ hb _ h =>
    have hl : db'.links = Table.put Prod.fst (r.id, base) db.links := by
      unfold Db.links
      rw [h.ledger]
      exact links_put (amended r metadata size base)
    rw [hl]
    exact .hang r.id base ⟨r.link, hmem r hr, rfl⟩ (hbase base hb)
  | publish r policy t hr _ _ _ _ h =>
    refine hsame ?_
    rw [h.ledger]
    exact links_put_same hk (publishedAs r policy t) (hmem r hr) rfl
  | withdraw r now hr _ _ h =>
    refine hsame ?_
    rw [h.ledger]
    exact ReleaseRule.stop_links _ _ _ [r] _ hk fun x hx => List.mem_singleton.mp hx ▸ hmem r hr
  | purge r _ _ _ hb _ h =>
    have hl : db'.links = db.links.filter fun e => decide (e.1 ≠ r.id) := by
      unfold Db.links
      rw [h.ledger]
      exact links_without r.id
    rw [hl]
    refine .remove r.id fun e he => ?_
    obtain ⟨x, hx, rfl⟩ := List.mem_map.mp he
    exact hb x hx
  | retire m now _ h =>
    refine hsame ?_
    rw [h.ledger]
    exact ReleaseRule.stop_links _ _ _ _ _ hk hmem

theorem Transferred.forest {clock : Clock} {ids : List Nat} {db db' : Db} (hs : db.ledger.Sound)
    (ht : Transferred clock db ids db') :
    Forest.Step db.links none db'.links := by
  have hk := keyed_links hs.records
  have hbeside : ∀ l : Ledger, db.ledger.Beside l → l.records.map Record.link = db.links := by
    intro l hl
    cases hl.drafted with
    | none h => rw [h]; rfl
    | one r r' hr _ hm h =>
      rw [h]
      refine links_put_same hk r' (List.mem_map_of_mem hr) ?_
      cases hm <;> rfl
  have hlinks : db'.links = db.links := by
    unfold Db.links
    cases ht with
    | wrote l hl he =>
      rw [he.same.ledger]
      exact hbeside l hl
    | pruned keep l hl => exact hbeside l hl
    | prunedEvents ids => rfl
  rw [hlinks]
  exact .stay

/-! ### Purges -/

namespace Db

/-- What `purge_record` asks of a record, besides that it is no base. -/
structure Disposable (db : Db) (id : Id) : Prop where
  terminal : ∃ r, db.ledger.record id = some r ∧ r.state.terminal = true
  cleaned : ∀ b ∈ db.ledger.blobsOf id, b.state = .cleaned ∧ ∀ a ∈ db.ledger.attemptsOf b.id,
    a.mutationTokens = []
  inputs : ∀ i ∈ db.registry.inputs, i.recordId ≠ id
  results : ∀ c ∈ db.registry.coordinations, c.resultRecordId ≠ some id
  references : ∀ reference ∈ db.registry.references, reference.recordId ≠ id

/-- No record outside the set has its base inside, and none inside is on a cycle. -/
structure Detached (db : Db) (ids : List Id) : Prop where
  closed : ∀ r ∈ db.ledger.records, ∀ base, r.baseRecordId = some base → base ∈ ids → r.id ∈ ids
  acyclic : ∀ id ∈ ids, ¬ TransGen (Parent db.baseOf) id id

theorem detached_iff (db : Db) (ids : List Id) :
    db.Detached ids ↔ Forest.Detached db.links ids := by
  constructor
  · rintro ⟨hc, ha⟩
    refine ⟨fun e he => ?_, ?_⟩
    · obtain ⟨r, hr, rfl⟩ := List.mem_map.mp he
      exact hc r hr
    · rw [← db.baseOf_eq]
      exact ha
  · rintro ⟨hc, ha⟩
    refine ⟨fun r hr => hc r.link (List.mem_map_of_mem hr), ?_⟩
    rw [db.baseOf_eq]
    exact ha

end Db

namespace Service

/-- The caller may write to the space, as an administrator. -/
def Administers (env : Env) (db : Db) (p : Principal) (now : Time) : Prop :=
  ∃ member, transaction env db p .write now = .ok member ∧ require member [.admin] = .ok ()

/-- Purge the records one after another. -/
def purgeAll (env : Env) (p : Principal) (clock : Clock) (db : Db) (ids : List Id) :
    Except Error Db :=
  ids.foldlM (fun db id => (purgeRecord env p id clock db).map (·.1)) db

variable {env : Env} {p : Principal} {clock : Clock} {db : Db}

/-- The attachments and attempts of another record stay, and nothing is added. -/
theorem purged_disposable {r : Record} {events : List Event} {seq : Nat} {id : Id} (hne : id ≠ r.id)
    (h : db.Disposable id) :
    Db.Disposable { db with ledger := db.ledger.removeRecord r, events := events, eventSeq := seq }
      id := by
  refine ⟨?_, fun b hb => ?_, h.inputs, h.results, h.references⟩
  · obtain ⟨x, hx, ht⟩ := h.terminal
    refine ⟨x, ?_, ht⟩
    show Table.get Record.id id (db.ledger.records.filter fun x => decide (x.id ≠ r.id)) = some x
    rw [Table.get_without, if_neg hne]
    exact hx
  · obtain ⟨hb, hid⟩ := List.mem_filter.mp hb
    obtain ⟨hs, ha⟩ := h.cleaned b (List.mem_filter.mpr ⟨(List.mem_filter.mp hb).1, hid⟩)
    refine ⟨hs, fun a hmem => ?_⟩
    obtain ⟨hmem, hab⟩ := List.mem_filter.mp hmem
    exact ha a (List.mem_filter.mpr ⟨(List.mem_filter.mp hmem).1, hab⟩)

/-- What is left of the database after a record is purged. -/
structure Purged (env : Env) (p : Principal) (id : Id) (db db' : Db) : Prop where
  links : db'.links = db.links.filter fun e => decide (e.1 ≠ id)
  disposable : ∀ other, other ≠ id → db.Disposable other → db'.Disposable other
  administers : ∀ now, Administers env db p now → Administers env db' p now

theorem purgeRecord_purged {id : Id} {db' : Db} {response : Response}
    (h : purgeRecord env p id clock db = .ok (db', response)) : Purged env p id db db' := by
  simp only [purgeRecord, block_ok, found_ok] at h
  obtain ⟨member, -, -, r, hr, -, -, -, -, -, rfl, -⟩ := h
  obtain ⟨-, rfl⟩ := Table.get_mem hr
  -- Members, grants and the managed space are the same, so the caller may do what it could.
  exact ⟨links_without r.id, fun other hne hd => purged_disposable hne hd, fun now ha => ha⟩

/-- **A disposable record is purged exactly when it is no base.** -/
theorem purgeRecord_ok_iff {id : Id} (ha : Administers env db p (clock 0)) (hd : db.Disposable id) :
    (∃ db' response, purgeRecord env p id clock db = .ok (db', response)) ↔
      ∀ e ∈ db.links, e.2 ≠ some id := by
  obtain ⟨member, htx, hreq⟩ := ha
  obtain ⟨r, hr, hterm⟩ := hd.terminal
  have hid : r.id = id := (Table.get_mem hr).2
  subst hid
  have hlinks : (∀ e ∈ db.links, e.2 ≠ some r.id) ↔
      db.ledger.records.any (·.baseRecordId = some r.id) = false := by
    simp [Db.links, Record.link]
  have hclean : (db.ledger.blobsOf r.id).any (·.state ≠ .cleaned) = false := by
    simpa using fun b hb => (hd.cleaned b hb).1
  have htokens : (db.ledger.blobsOf r.id).any
      (fun b => (db.ledger.attemptsOf b.id).any (·.mutationTokens ≠ [])) = false := by
    simpa using fun b hb => (hd.cleaned b hb).2
  have hinputs : db.registry.inputs.any (·.recordId = r.id) = false := by simpa using hd.inputs
  have hresults : db.registry.coordinations.any (·.resultRecordId = some r.id) =
      false := by simpa using hd.results
  have hrefs : db.registry.references.any (·.recordId = r.id) =
      false := by simpa using hd.references
  rw [hlinks]
  unfold purgeRecord
  rw [htx]
  simp only [block_ok, Except.ok.injEq, exists_eq_left', hreq, true_and, found_ok, hr,
    Option.some.injEq, refuse_ok, hterm, hclean, htokens, hinputs, hresults, hrefs]
  simp

/-- **Disposable records are purged in an order exactly when they can be removed in it.** -/
theorem purgeAll_ok_iff {order : List Id} (hnodup : order.Nodup)
    (ha : Administers env db p (clock 0)) (hd : ∀ id ∈ order, db.Disposable id) :
    (∃ db', purgeAll env p clock db order = .ok db') ↔ Forest.Removable db.links order := by
  induction order generalizing db with
  | nil => exact ⟨fun _ => trivial, fun _ => ⟨db, rfl⟩⟩
  | cons id rest ih =>
    obtain ⟨hid, hrest⟩ := List.nodup_cons.mp hnodup
    have hone := purgeRecord_ok_iff ha (hd id List.mem_cons_self)
    -- The rest is as disposable after the first is gone.
    have hnext : ∀ {db₁ response}, purgeRecord env p id clock db = .ok (db₁, response) →
        ((∃ db', purgeAll env p clock db₁ rest = .ok db') ↔
          Forest.Removable (db.links.filter fun e => decide (e.1 ≠ id)) rest) := by
      intro db₁ response h₁
      have hp := purgeRecord_purged h₁
      rw [← hp.links]
      refine ih hrest (hp.administers _ ha) fun other hmem => ?_
      exact hp.disposable other (fun he => hid (he ▸ hmem))
        (hd other (List.mem_cons_of_mem id hmem))
    simp only [purgeAll, List.foldlM_cons, bind_ok, map_ok] at hnext ⊢
    constructor
    · rintro ⟨db', _, ⟨⟨db₁, response⟩, h₁, rfl⟩, h₂⟩
      exact ⟨hone.mp ⟨db₁, response, h₁⟩, (hnext h₁).mp ⟨db', h₂⟩⟩
    · rintro ⟨hfree, hremove⟩
      obtain ⟨db₁, response, h₁⟩ := hone.mpr hfree
      obtain ⟨db', h₂⟩ := (hnext h₁).mpr hremove
      exact ⟨db', db₁, ⟨⟨db₁, response⟩, h₁, rfl⟩, h₂⟩

/-- The purged records are gone. -/
theorem purgeAll_gone {order : List Id} {db' : Db} (h : purgeAll env p clock db order = .ok db') :
    ∀ id, id ∈ order ∨ db.ledger.record id = none → db'.ledger.record id = none := by
  induction order generalizing db with
  | nil =>
    rw [purgeAll, List.foldlM_nil, pure_ok] at h
    exact fun id hid => h ▸ hid.resolve_left List.not_mem_nil
  | cons a rest ih =>
    simp only [purgeAll, List.foldlM_cons, bind_ok, map_ok] at h
    obtain ⟨_, ⟨⟨db₁, response⟩, h₁, rfl⟩, h₂⟩ := h
    have hgone : ∀ id, db₁.ledger.record id = if id = a then none else db.ledger.record id := by
      simp only [purgeRecord, block_ok, found_ok] at h₁
      obtain ⟨member, -, -, r, hr, -, -, -, -, -, rfl, -⟩ := h₁
      obtain ⟨-, rfl⟩ := Table.get_mem hr
      exact fun id => Table.get_without ..
    refine fun id hid => ih h₂ id ?_
    rw [hgone]
    split_ifs with he
    · exact Or.inr rfl
    · exact hid.imp (fun hmem => (List.mem_cons.mp hmem).resolve_left he) fun hn => hn

/-- **A set of disposable records can be purged completely, in some order, exactly when it is
detached.** -/
theorem purgeable_iff (hg : Forest.Grounded db.links) (ha : Administers env db p (clock 0))
    {ids : List Id} (hnodup : ids.Nodup) (hd : ∀ id ∈ ids, db.Disposable id) :
    (∃ order db', order.Perm ids ∧ purgeAll env p clock db order = .ok db' ∧
      ∀ id ∈ ids, db'.ledger.record id = none) ↔ db.Detached ids := by
  rw [db.detached_iff, ← Forest.removable_iff hnodup hg]
  constructor
  · rintro ⟨order, db', hperm, hpurge, -⟩
    refine ⟨order, hperm, (purgeAll_ok_iff (hperm.nodup_iff.mpr hnodup) ha fun id hid => ?_).mp
      ⟨db', hpurge⟩⟩
    exact hd id (hperm.mem_iff.mp hid)
  · rintro ⟨order, hperm, hremove⟩
    obtain ⟨db', hpurge⟩ := (purgeAll_ok_iff (hperm.nodup_iff.mpr hnodup) ha fun id hid =>
      hd id (hperm.mem_iff.mp hid)).mpr hremove
    exact ⟨order, db', hperm, hpurge,
      fun id hid => purgeAll_gone hpurge id (Or.inl (hperm.mem_iff.mpr hid))⟩

end Service

end Hf2l.Exchange
