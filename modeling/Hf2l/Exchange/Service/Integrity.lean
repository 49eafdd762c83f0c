import Hf2l.Exchange.Service.Log

/-!
# `Hf2l.Exchange.Service.Integrity`: references, bases and visibility

Three facts relate the rows of a space that is not retired: a reference points to a published
and shared record, the base of a published record is published, and a record is shared exactly
when the policy of its kind says so (`Integrity`). They are properties of the records, the
references and the policies alone, and the lemmas here say which writes of these tables keep
them. `Committed.intact` and `Transferred.intact` put them together.

`Intact` adds what the proofs need: keys are unique, and the base of any record exists, so that
the empty text is not one.
-/

set_option autoImplicit false

namespace Hf2l.Exchange

open Lib
open Service (Committed)

/-- The record is there and published. -/
def Published (records : List Record) (id : Id) : Prop :=
  ∃ r ∈ records, r.id = id ∧ r.state = .published

structure Integrity (records : List Record) (references : List Reference)
    (policies : List KindPolicy) : Prop where
  references : ∀ reference ∈ references,
    ∃ r ∈ records, r.id = reference.recordId ∧ r.state = .published ∧ r.shared = true
  bases : ∀ r ∈ records, r.state = .published → ∀ id, r.baseRecordId = some id →
    Published records id
  shared : ∀ r ∈ records, ∃ policy, Table.get KindPolicy.kind r.kind policies = some policy ∧
    (r.shared = true ↔ policy.visibility = .shared)

/-- References, bases and visibility of the space. -/
def Db.Integral (db : Db) : Prop := Integrity db.ledger.records db.registry.references db.policies

/-- The space is retired. -/
def Db.retired (db : Db) : Bool := db.managed.any (·.retiredAt.isSome)

/-- What is kept of the rows. -/
structure Intact (records : List Record) (references : List Reference)
    (policies : List KindPolicy) : Prop
    extends Integrity records references policies where
  keyed : Table.Keyed Record.id records
  kinds : Table.Keyed KindPolicy.kind policies
  based : ∀ r ∈ records, ∀ id, r.baseRecordId = some id → ∃ x ∈ records, x.id = id

namespace Intact

variable {records : List Record} {references : List Reference} {policies : List KindPolicy}

/-! ### Writes of records -/

/-- Nothing that is published depends on the record: no reference and no base. -/
def Free (records : List Record) (references : List Reference) (id : Id) : Prop :=
  (∀ reference ∈ references, reference.recordId ≠ id) ∧
    ∀ x ∈ records, x.state = .published → x.baseRecordId ≠ some id

/-- A published record other than the one that is written stays. -/
theorem published_put {r r' : Record} {id : Id} (hid : r'.id = r.id) (hne : id ≠ r.id)
    (h : Published records id) : Published (Table.put Record.id r' records) id := by
  obtain ⟨x, hx, rfl, hs⟩ := h
  exact ⟨x, Table.mem_put_of_ne hx (by rw [hid]; exact hne), rfl, hs⟩

section
variable (h : Intact records references policies)
include h

/-- One record is written. If it was published then nothing depends on it, and if it is now then
it was a draft and its base is published. -/
theorem put {r : Record} (r' : Record) (hr : r ∈ records) (hid : r'.id = r.id)
    (hkind : r'.kind = r.kind) (hfree : r.state = .published → Free records references r.id)
    (hdraft : r'.state = .published → r.state = .draft)
    (hbase : r'.state = .published → ∀ id, r'.baseRecordId = some id → Published records id)
    (hbased : ∀ id, r'.baseRecordId = some id → ∃ x ∈ records, x.id = id)
    (hshared : ∃ policy, Table.get KindPolicy.kind r.kind policies = some policy ∧
      (r'.shared = true ↔ policy.visibility = .shared)) :
    Intact (Table.put Record.id r' records) references policies := by
  -- A published record that something depends on is not `r`.
  have hother : ∀ x ∈ records, x.state = .published → (r.state = .published → x.id ≠ r.id) →
      x.id ≠ r.id := by
    intro x hx hs hf he
    rw [h.keyed.eq_of_key_eq hx hr he] at hs
    exact hf hs he
  have hbase_ne : ∀ x ∈ records, x.state = .published → ∀ id, x.baseRecordId = some id →
      Published records id → id ≠ r.id := by
    rintro x hx hs id hb ⟨y, hy, rfl, hys⟩
    exact hother y hy hys fun hrs he => (hfree hrs).2 x hx hs (by rw [hb, he])
  refine ⟨⟨fun reference href => ?_, fun x hx hs id hb => ?_, fun x hx => ?_⟩, h.keyed.put r',
    h.kinds,
    fun x hx id hb => ?_⟩
  · obtain ⟨x, hx, hxid, hxs, hxshared⟩ := h.references reference href
    have hne : x.id ≠ r.id :=
      hother x hx hxs fun hrs he => (hfree hrs).1 reference href (by rw [← hxid, he])
    exact ⟨x, Table.mem_put_of_ne hx (by rw [hid]; exact hne), hxid, hxs, hxshared⟩
  · rcases Table.of_mem_put hx with ⟨hx, -⟩ | rfl
    · have hp := h.bases x hx hs id hb
      exact published_put hid (hbase_ne x hx hs id hb hp) hp
    · -- The record is published now: it was a draft, and its base is another record.
      obtain ⟨y, hy, hyid, hys⟩ := hbase hs id hb
      refine published_put hid (fun he => ?_) ⟨y, hy, hyid, hys⟩
      rw [h.keyed.eq_of_key_eq hy hr (hyid.trans he), hdraft hs] at hys
      simp at hys
  · rcases Table.of_mem_put hx with ⟨hx, -⟩ | rfl
    · exact h.shared x hx
    · rw [hkind]
      exact hshared
  · -- Identifiers stay, so bases that exist do.
    have hexists : ∀ y ∈ records, ∃ z ∈ Table.put Record.id r' records, z.id = y.id := by
      intro y hy
      by_cases he : y.id = r'.id
      · exact ⟨r', Table.mem_put_self hr hid, he.symm⟩
      · exact ⟨y, Table.mem_put_of_ne hy he, rfl⟩
    have hold : ∃ y ∈ records, y.id = id := by
      rcases Table.of_mem_put hx with ⟨hx, -⟩ | rfl
      · exact h.based x hx id hb
      · exact hbased id hb
    obtain ⟨y, hy, rfl⟩ := hold
    exact hexists y hy

/-- A draft is written and not published: nothing depends on it. -/
theorem put_draft {r : Record} (r' : Record) (hr : r ∈ records) (hd : r.state = .draft)
    (hid : r'.id = r.id) (hkind : r'.kind = r.kind) (hs : r'.state ≠ .published)
    (hshared : r'.shared = r.shared)
    (hbased : ∀ id, r'.baseRecordId = some id → ∃ x ∈ records, x.id = id) :
    Intact (Table.put Record.id r' records) references policies := by
  refine h.put r' hr hid hkind (fun hp => ?_) (fun hp => absurd hp hs) (fun hp => absurd hp hs)
    hbased ?_
  · simp [hd] at hp
  · rw [hshared]
    exact h.shared r hr

theorem insert {r : Record} (hd : r.state = .draft) (hid : ∀ x ∈ records, x.id ≠ r.id)
    (hbased : ∀ id, r.baseRecordId = some id → ∃ x ∈ records, x.id = id)
    (hshared : ∃ policy, Table.get KindPolicy.kind r.kind policies = some policy ∧
      (r.shared = true ↔ policy.visibility = .shared)) :
    Intact (records ++ [r]) references policies := by
  have hlast : ∀ x ∈ records ++ [r], x ∈ records ∨ x = r := by simp
  refine ⟨⟨fun reference href => ?_, fun x hx hs id hb => ?_, fun x hx => ?_⟩, h.keyed.concat hid,
    h.kinds,
    fun x hx id hb => ?_⟩
  · obtain ⟨x, hx, hrest⟩ := h.references reference href
    exact ⟨x, List.mem_append_left _ hx, hrest⟩
  · rcases hlast x hx with hx | rfl
    · obtain ⟨y, hy, hrest⟩ := h.bases x hx hs id hb
      exact ⟨y, List.mem_append_left _ hy, hrest⟩
    · simp [hd] at hs
  · rcases hlast x hx with hx | rfl
    · exact h.shared x hx
    · exact hshared
  · have hold : ∃ y ∈ records, y.id = id := by
      rcases hlast x hx with hx | rfl
      · exact h.based x hx id hb
      · exact hbased id hb
    obtain ⟨y, hy, he⟩ := hold
    exact ⟨y, List.mem_append_left _ hy, he⟩

/-- A record that is neither published nor a base is deleted. -/
theorem remove {r : Record} (hr : r ∈ records) (ht : r.state.terminal = true)
    (hbase : ∀ x ∈ records, x.baseRecordId ≠ some r.id) :
    Intact (records.filter fun x => decide (x.id ≠ r.id)) references policies := by
  have hstay : ∀ x ∈ records, x.state = .published →
      x ∈ records.filter fun x => decide (x.id ≠ r.id) := by
    intro x hx hs
    refine List.mem_filter.mpr ⟨hx, decide_eq_true fun he => ?_⟩
    rw [h.keyed.eq_of_key_eq hx hr he] at hs
    simp [hs, RecordState.terminal] at ht
  have hmem : ∀ x ∈ records.filter fun x => decide (x.id ≠ r.id), x ∈ records :=
    fun x hx => (List.mem_filter.mp hx).1
  refine ⟨⟨fun reference href => ?_, fun x hx hs id hb => ?_, fun x hx => h.shared x (hmem x hx)⟩,
    h.keyed.filter _, h.kinds, fun x hx id hb => ?_⟩
  · obtain ⟨x, hx, hxid, hxs, hxshared⟩ := h.references reference href
    exact ⟨x, hstay x hx hxs, hxid, hxs, hxshared⟩
  · obtain ⟨y, hy, hyid, hys⟩ := h.bases x (hmem x hx) hs id hb
    exact ⟨y, hstay y hy hys, hyid, hys⟩
  · obtain ⟨y, hy, rfl⟩ := h.based x (hmem x hx) id hb
    exact ⟨y, List.mem_filter.mpr
      ⟨hy, decide_eq_true fun he => hbase x (hmem x hx) (by rw [hb, he])⟩, rfl⟩

end

/-! ### Writes of references and policies -/

/-- A reference is added or moved to a published and shared record. -/
theorem point (h : Intact records references policies) {references' : List Reference}
    (href : ∀ reference ∈ references', (∃ old ∈ references, old.recordId = reference.recordId) ∨
      ∃ r ∈ records, r.id = reference.recordId ∧ r.state = .published ∧ r.shared = true) :
    Intact records references' policies := by
  refine ⟨⟨fun reference hr => ?_, h.bases, h.shared⟩, h.keyed, h.kinds, h.based⟩
  rcases href reference hr with ⟨old, hold, he⟩ | hr
  · rw [← he]
    exact h.references old hold
  · exact hr

/-- A kind that had no policy gets one. Records have policies, so none is of this kind. -/
theorem addPolicy (h : Intact records references policies) {policy : KindPolicy}
    (hnone : Table.get KindPolicy.kind policy.kind policies = none) :
    Intact records references (policies ++ [policy]) := by
  refine ⟨⟨h.references, h.bases, fun r hr => ?_⟩, h.keyed, h.kinds.concat (Table.get_none hnone),
    h.based⟩
  obtain ⟨p, hp, hs⟩ := h.shared r hr
  refine ⟨p, ?_, hs⟩
  rw [Table.get_concat (Table.get_none hnone), if_neg fun he => ?_, hp]
  rw [he, hnone] at hp
  simp at hp

/-- The records after a change of the visibility of their kind. -/
def reshare (kind : String) (flag : Bool) (r : Record) : Record :=
  if r.kind = kind then { r with shared := flag } else r

theorem reshare_fields (kind : String) (flag : Bool) (r : Record) :
    (reshare kind flag r).id = r.id ∧ (reshare kind flag r).kind = r.kind ∧
      (reshare kind flag r).state = r.state ∧
      (reshare kind flag r).baseRecordId = r.baseRecordId := by
  unfold reshare
  split_ifs <;> exact ⟨rfl, rfl, rfl, rfl⟩

/-- The policy of a kind is changed and its records with it. The kind of a referenced record
cannot become private. -/
theorem setPolicy (h : Intact records references policies) {policy policy' : KindPolicy}
    (hp : Table.get KindPolicy.kind policy.kind policies = some policy)
    (hkind : policy'.kind = policy.kind)
    (hprivate : policy'.visibility = .private → ∀ reference ∈ references,
      ∀ r ∈ Table.get Record.id reference.recordId records, r.kind ≠ policy.kind) :
    Intact (records.map (reshare policy.kind (policy'.visibility = Visibility.shared))) references
      (Table.put KindPolicy.kind policy' policies) := by
  obtain ⟨hpm, -⟩ := Table.get_mem hp
  have hpub : ∀ id, Published records id →
      Published (records.map (reshare policy.kind (policy'.visibility = Visibility.shared)))
        id := by
    rintro id ⟨x, hx, hxid, hxs⟩
    exact ⟨_, List.mem_map_of_mem hx, (reshare_fields _ _ x).1.trans hxid,
      (reshare_fields _ _ x).2.2.1.trans hxs⟩
  refine ⟨⟨fun reference href => ?_, fun x hx hs id hb => ?_, fun x hx => ?_⟩,
    h.keyed.map fun x _ => (reshare_fields _ _ x).1, h.kinds.put policy', fun x hx id hb => ?_⟩
  · obtain ⟨x, hx, hxid, hxs, hxshared⟩ := h.references reference href
    refine ⟨_, List.mem_map_of_mem hx, (reshare_fields _ _ x).1.trans hxid,
      (reshare_fields _ _ x).2.2.1.trans hxs, ?_⟩
    unfold reshare
    split_ifs with hk
    · -- The record is referenced, so the new visibility is not private.
      cases hv : policy'.visibility with
      | shared => simp
      | «private» =>
        refine absurd hk (hprivate hv reference href x ?_)
        rw [Option.mem_def, ← hxid]
        exact h.keyed.get_eq hx
    · exact hxshared
  · obtain ⟨x₀, hx₀, rfl⟩ := List.mem_map.mp hx
    obtain ⟨-, -, hstate, hbase⟩ := reshare_fields _ _ x₀
    exact hpub id (h.bases x₀ hx₀ (hstate.symm.trans hs) id (hbase.symm.trans hb))
  · obtain ⟨x₀, hx₀, rfl⟩ := List.mem_map.mp hx
    rw [(reshare_fields _ _ x₀).2.1, Table.get_put h.kinds hpm policy' hkind]
    unfold reshare
    by_cases hk : x₀.kind = policy.kind
    · rw [if_pos hk, if_pos (hk.trans hkind.symm)]
      exact ⟨policy', rfl, by simp⟩
    · rw [if_neg hk, if_neg fun e => hk (e.trans hkind)]
      exact h.shared x₀ hx₀
  · obtain ⟨x₀, hx₀, rfl⟩ := List.mem_map.mp hx
    obtain ⟨y, hy, rfl⟩ := h.based x₀ hx₀ id ((reshare_fields _ _ x₀).2.2.2.symm.trans hb)
    exact ⟨_, List.mem_map_of_mem hy, (reshare_fields _ _ y).1⟩

end Intact

/-! ### Transactions -/

def Db.Intact (db : Db) : Prop :=
  Hf2l.Exchange.Intact db.ledger.records db.registry.references db.policies

variable {db db' : Db} {clock : Clock} {ids : List Nat} {r : Record}

/-- The tables that matter are the same. -/
theorem Db.Intact.of_same (h : db.Intact) (hs : db.Same db') : db'.Intact := by
  unfold Db.Intact
  rw [hs.ledger, hs.registry, hs.policies]
  exact h

/-- The records after one is stopped. -/
theorem ReleaseRule.stop_one_records (rule : ReleaseRule) (state : Record → RecordState)
    (now : Time) (l : Ledger) (r : Record) : (rule.stop state now l [r]).records =
      if r.state.terminal = true then l.records
      else Table.put Record.id (r.stopped (state r)) l.records := by
  unfold ReleaseRule.stop
  rw [List.foldl_cons, List.foldl_nil]
  split_ifs
  · rfl
  · rw [ReleaseRule.release_records]

theorem Service.baseExists_mem {l : Ledger} {base : Option Id}
    (h : Service.baseExists l base = true) :
    ∀ id, base = some id → ∃ x ∈ l.records, x.id = id := by
  rintro id rfl
  obtain ⟨x, hx⟩ := Option.isSome_iff_exists.mp (by simpa [Service.baseExists] using h)
  exact ⟨x, Table.get_mem hx⟩

namespace Service.Committed

variable {d : Dialect} {db db' : Db} {k : Service.Deed}

/-- A retired space stays retired. -/
theorem retired (hr : db.retired = true) (hc : Committed d db k db') : db'.retired = true := by
  have hsame : db'.managed = db.managed → db'.retired = true := fun he => by
    unfold Db.retired
    rw [he]
    exact hr
  cases hc with
  | manage m hm _ _ => simp [Db.retired, hm] at hr
  | retire m now hm h =>
    unfold Db.retired
    rw [h.managed]
    exact hm
  | register kind roles visibility h =>
    refine hsame (h.managed.trans ?_)
    unfold addPolicy
    split_ifs <;> rfl
  | idle _ h | limits s _ h | policy p p' _ _ _ h | create r bs p _ _ _ _ h
  | patch r metadata size base _ _ _ _ _ h | publish r p t _ _ _ _ _ h | withdraw r now _ _ _ h
  | purge r _ _ _ _ _ h | createReference name r _ _ _ h
  | moveReference reference r _ _ _ h | acquire reference holder leaseUntil createdAt inputs _ _ h
  | renew c reference t _ h | abandon c reference _ h | complete c reference r _ _ _ _ h =>
    exact hsame h.managed

/-- The target of a reference that is moved. -/
theorem point_moved (h : db.Intact) {reference : Reference} {r : Record} (ht : Target db.ledger r) :
    Hf2l.Exchange.Intact db.ledger.records (db.registry.moveReference reference r.id).references
      db.policies := by
  refine h.point fun x hx => ?_
  rcases Table.of_mem_put hx with ⟨hx, -⟩ | rfl
  · exact Or.inl ⟨x, hx, rfl⟩
  · exact Or.inr ⟨r, ht.mem, rfl, ht.published, ht.shared⟩

/-- **A command keeps the space intact, or retires it.** -/
theorem intact (hs : db.ledger.Sound) (h : db.Intact) (hc : Committed d db k db') :
    db'.retired = true ∨ db'.Intact := by
  have hkept : ∀ {db₁ : Db}, db₁.Same db' → db₁.Intact → db'.retired = true ∨ db'.Intact :=
    fun hsame h => Or.inr (h.of_same hsame)
  cases hc with
  | idle _ hsame | manage m _ _ hsame | limits s _ hsame | renew c reference t _ hsame
  | abandon c reference _ hsame =>
    exact hkept hsame h
  | register kind roles visibility hsame =>
    refine hkept hsame ?_
    unfold addPolicy
    split_ifs with hk
    · exact h
    · exact h.addPolicy (Option.not_isSome_iff_eq_none.mp hk)
  | policy policy policy' hp hk hr hsame =>
    exact hkept hsame (h.setPolicy hp hk hr)
  | create r bs policy ho hp hshared _ hsame =>
    refine hkept hsame ?_
    refine h.insert ho.draft (fun x hx => ?_) (baseExists_mem ho.base) ⟨policy, hp, ?_⟩
    · rw [ho.id]
      exact (hs.mintedRecords x hx).ne_fresh 0
    · simp [hshared]
  | patch r metadata size base hr hd _ hb _ hsame =>
    exact hkept hsame
      (h.put_draft (amended r metadata size base) hr hd rfl rfl (by simp [amended, hd]) rfl
      (baseExists_mem hb))
  | publish r policy t hr hd hp hb _ hsame =>
    refine hkept hsame ?_
    refine h.put (publishedAs r policy t) hr rfl rfl (fun hpub => ?_) (fun _ => hd)
      (fun _ id hid => ?_)
      (h.based r hr) ⟨policy, hp, by simp [publishedAs]⟩
    · simp [hd] at hpub
    · -- The base exists, so it is not the empty text that `checkBase` lets pass.
      obtain ⟨x, hx, rfl⟩ := h.based r hr id hid
      obtain ⟨k, -, hk⟩ := hs.mintedRecords x hx
      exact hb x.id hid (by rw [hk]; exact Nat.repr_ne_empty)
  | withdraw r now hr hb href hsame =>
    refine hkept hsame ?_
    show Hf2l.Exchange.Intact (d.rule.stop stoppedState now db.ledger [r]).records _ _
    rw [ReleaseRule.stop_one_records]
    split_ifs
    · exact h
    · have hne : (r.stopped (stoppedState r)).state ≠ .published := by
        unfold Record.stopped stoppedState
        split_ifs <;> simp
      exact h.put (r.stopped (stoppedState r)) hr rfl rfl (fun _ => ⟨href, hb⟩)
        (fun hp => absurd hp hne)
        (fun hp => absurd hp hne) (h.based r hr) (h.shared r hr)
  | purge r hr ht _ hb _ hsame =>
    exact hkept hsame (h.remove hr ht hb)
  | retire m now hm hsame =>
    refine Or.inl ?_
    unfold Db.retired
    rw [hsame.managed]
    exact hm
  | createReference name r _ ht _ hsame =>
    refine hkept hsame ?_
    refine h.point fun x hx => ?_
    rcases Table.mem_concat.mp hx with hx | rfl
    · exact Or.inl ⟨x, hx, rfl⟩
    · exact Or.inr ⟨r, ht.mem, rfl, ht.published, ht.shared⟩
  | moveReference reference r _ ht _ hsame | complete c reference r _ _ ht _ hsame =>
    exact hkept hsame (point_moved h ht)
  | acquire reference holder leaseUntil createdAt inputs hn _ hsame =>
    refine hkept hsame ?_
    refine h.point fun x hx => Or.inl ?_
    rcases Table.of_mem_put hx with ⟨hx, -⟩ | rfl
    · exact ⟨x, hx, rfl⟩
    · exact ⟨reference, (Table.get_mem hn).1, rfl⟩

end Service.Committed

/-- **A transfer writes drafts only, on which nothing depends.** -/
theorem Transferred.intact (h : db.Intact) (ht : Transferred clock db ids db') : db'.Intact := by
  have hdrafted : ∀ l : Ledger, db.ledger.Beside l → Db.Intact { db with ledger := l } := by
    intro l hl
    unfold Db.Intact
    cases hl.drafted with
    | none hrec =>
      rw [show ({ db with ledger := l } : Db).ledger.records = db.ledger.records from hrec]
      exact h
    | one r r' hr hd hm hrec =>
      rw [show ({ db with ledger := l } : Db).ledger.records = _ from hrec]
      cases hm with
      | extend t =>
        exact h.put_draft { r with expiresAt := t } hr hd rfl rfl (by simp [hd]) rfl (h.based r hr)
      | stop state hterm =>
        refine h.put_draft (r.stopped state) hr hd rfl rfl (fun hp => ?_) rfl (h.based r hr)
        rw [show state = .published from hp] at hterm
        simp [RecordState.terminal] at hterm
  cases ht with
  | wrote l hl he => exact (hdrafted l hl).of_same he.same
  | pruned keep l hl => exact hdrafted l hl
  | prunedEvents ids => exact h

theorem Transferred.retired (hr : db.retired = true) (ht : Transferred clock db ids db') :
    db'.retired = true := by
  cases ht with
  | wrote l _ he =>
    unfold Db.retired
    rw [he.same.managed]
    exact hr
  | pruned keep l _ | prunedEvents ids => exact hr

/-! ### Records that something depends on -/

/-- What a published record keeps while something depends on it. -/
structure Record.Unaltered (r r' : Record) : Prop where
  id : r'.id = r.id
  kind : r'.kind = r.kind
  metadata : r'.metadata = r.metadata
  baseRecordId : r'.baseRecordId = r.baseRecordId
  state : r'.state = r.state

theorem Record.Unaltered.refl (r : Record) : r.Unaltered r := ⟨rfl, rfl, rfl, rfl, rfl⟩

/-- **A command that does not retire the space leaves a published record that something depends
on as it is.** -/
theorem Service.Committed.unaltered {d : Dialect} {k : Service.Deed} (hi : db.Intact)
    (hc : Committed d db k db') (hret : db'.retired = false) (hr : r ∈ db.ledger.records)
    (hp : r.state = .published)
    (hfree : ¬ Hf2l.Exchange.Intact.Free db.ledger.records db.registry.references r.id) :
    ∃ r' ∈ db'.ledger.records, r.Unaltered r' := by
  have hsame : db'.ledger.records = db.ledger.records → ∃ r' ∈ db'.ledger.records, r.Unaltered r' :=
    fun he => ⟨r, he ▸ hr, .refl r⟩
  -- A write of another record.
  have hput : ∀ x ∈ db.ledger.records, ∀ x' : Record, x'.id = x.id → x.state ≠ .published →
      db'.ledger.records = Table.put Record.id x' db.ledger.records → ∃ r' ∈ db'.ledger.records,
        r.Unaltered r' := by
    intro x hx x' hid hs he
    refine ⟨r, he ▸ Table.mem_put_of_ne hr fun heq => hs ?_, .refl r⟩
    rw [← hi.keyed.eq_of_key_eq hr hx (heq.trans hid)]
    exact hp
  cases hc with
  | idle _ h | manage m _ _ h | createReference name x _ _ _ h | moveReference reference x _ _ _ h
  | renew c reference t _ h | abandon c reference _ h | complete c reference x _ _ _ _ h =>
    exact hsame (congrArg Ledger.records h.ledger)
  | limits s _ h | acquire reference holder leaseUntil createdAt inputs _ _ h =>
    exact hsame (by rw [h.ledger]; rfl)
  | register kind roles visibility h =>
    refine hsame ((congrArg Ledger.records h.ledger).trans ?_)
    unfold addPolicy
    split_ifs <;> rfl
  | policy policy policy' _ _ _ h =>
    rw [h.ledger]
    obtain ⟨h1, h2, h3, h4⟩ :=
      Hf2l.Exchange.Intact.reshare_fields policy.kind (policy'.visibility = Visibility.shared) r
    refine ⟨_, List.mem_map_of_mem hr, ⟨h1, h2, ?_, h4, h3⟩⟩
    split_ifs <;> rfl
  | create x bs policy _ _ _ _ h =>
    rw [h.ledger]
    exact ⟨r, List.mem_append_left _ hr, .refl r⟩
  | patch x metadata size base hx hd _ _ _ h =>
    exact hput x hx (amended x metadata size base) rfl (by simp [hd])
      (congrArg Ledger.records h.ledger)
  | publish x policy t hx hd _ _ _ h =>
    exact hput x hx (publishedAs x policy t) rfl (by simp [hd]) (congrArg Ledger.records h.ledger)
  | withdraw x now hx hb href h =>
    have hrec := (congrArg Ledger.records h.ledger).trans
      (ReleaseRule.stop_one_records d.rule stoppedState now db.ledger x)
    split_ifs at hrec
    · exact hsame hrec
    · refine ⟨r, hrec ▸ Table.mem_put_of_ne hr fun he => hfree ?_, .refl r⟩
      rw [show r.id = x.id from he]
      exact ⟨href, hb⟩
  | purge x hx ht _ _ _ h =>
    rw [h.ledger]
    refine ⟨r, List.mem_filter.mpr ⟨hr, decide_eq_true fun he => ?_⟩, .refl r⟩
    rw [hi.keyed.eq_of_key_eq hr hx he] at hp
    simp [hp, RecordState.terminal] at ht
  | retire m now hm h =>
    unfold Db.retired at hret
    rw [h.managed] at hret
    exact absurd hm (by simpa using hret)

/-- A transfer writes drafts only. -/
theorem Ledger.Drafted.mem_published {l l' : Ledger} (hk : Table.Keyed Record.id l.records)
    (hd : l.Drafted l') (hr : r ∈ l.records) (hp : r.state = .published) : r ∈ l'.records := by
  cases hd with
  | none h => exact h ▸ hr
  | one x x' hx hs hm h =>
    have hid : x'.id = x.id := by cases hm <;> rfl
    refine h ▸ Table.mem_put_of_ne hr fun he => ?_
    rw [hk.eq_of_key_eq hr hx (he.trans hid), hs] at hp
    simp at hp

theorem Transferred.unaltered (hi : db.Intact) (ht : Transferred clock db ids db')
    (hr : r ∈ db.ledger.records) (hp : r.state = .published) :
    ∃ r' ∈ db'.ledger.records, r.Unaltered r' := by
  cases ht with
  | wrote l hl he =>
    rw [he.same.ledger]
    exact ⟨r, hl.drafted.mem_published hi.keyed hr hp, .refl r⟩
  | pruned keep l hl => exact ⟨r, hl.drafted.mem_published hi.keyed hr hp, .refl r⟩
  | prunedEvents ids => exact ⟨r, hr, .refl r⟩

end Hf2l.Exchange
