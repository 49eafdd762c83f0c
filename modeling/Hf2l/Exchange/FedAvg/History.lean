import Hf2l.Exchange.FedAvg.Selection
import Hf2l.Exchange.Registry.Swaps
import Hf2l.Exchange.Service.Provenance

/-!
# `Hf2l.Exchange.FedAvg.History`: the models that `main` pointed to

A run is watched by a `Trace`, which notes every target of `main` and, for every acquisition,
the database in which it was granted. `Linear` says that the targets are one line of models: the
first was made from nothing, and each of the others on the one before it, from updates that its
acquisition selected.

A target never changes: the latest is held by the reference and each of the others by the model
that was made on it. So one transaction can only add to the line, and what it can do to the
acquisitions is collected in `Advance`.
-/

set_option autoImplicit false

namespace Hf2l.Exchange.FedAvg

open Lib
open Lib.Register (Label)
open Service

/-! ### Watching a run -/

/-- What is noted along a run. -/
structure Trace where
  /-- The targets of `main`, the latest first. -/
  targets : List Id
  /-- The acquisitions, with the database that each was granted in. -/
  grants : List (Id × Db)

/-- A transaction took the database from `db` to `db'`. -/
def Trace.extend (t : Trace) (db db' : Db) : Trace where
  targets :=
    if db'.generation "main" = db.generation "main" then t.targets
    else (db'.target "main").toList ++ t.targets
  grants :=
    (db'.registry.coordinations.filter fun c => (db.coordination c.id).isNone).map
      (fun c => (c.id, db)) ++ t.grants

/-- The step of a system that is watched. -/
def traced {τ : Type} (step : Db → τ → Db) (s : Db × Trace) (tx : τ) : Db × Trace :=
  (step s.1 tx, s.2.extend s.1 (step s.1 tx))

/-! ### Linear histories -/

/-- The first target. -/
def First (db : Db) (id : Id) : Prop :=
  ∃ r ∈ db.ledger.records, r.id = id ∧ r.state = .published ∧ r.baseRecordId = none ∧ Initial r

/-- The completed acquisition that put a target after `prev`: the inputs are among those it froze,
and they were updates on `prev` of different participants when it did. -/
structure Round (db : Db) (t : Trace) (prev id : Id) (inputs : List Id) (c : Coordination) :
    Prop where
  mem : c ∈ db.registry.coordinations
  main : c.referenceName = "main"
  completed : c.state = .completed
  result : c.resultRecordId = some id
  frozen : inputs ⊆ db.inputIds c.id
  granted : ∃ before, (c.id, before) ∈ t.grants ∧ before.target "main" = some prev ∧
    Selected before prev inputs

/-- A target after `prev`. -/
def Next (db : Db) (t : Trace) (prev id : Id) : Prop :=
  ∃ r ∈ db.ledger.records, r.id = id ∧ r.state = .published ∧ r.baseRecordId = some prev ∧
    ∃ inputs, Aggregate prev inputs r ∧ ∃ c, Round db t prev id inputs c

/-- The targets, the latest first, as one line. -/
def Chain (db : Db) (t : Trace) : List Id → Prop
  | [] => True
  | [id] => First db id
  | id :: prev :: rest => Next db t prev id ∧ Chain db t (prev :: rest)

structure Linear (db : Db) (t : Trace) : Prop where
  /-- Nothing is missing: the trace has a target for each generation. -/
  count : db.generation "main" = t.targets.length
  current : db.target "main" = t.targets.head?
  chain : Chain db t t.targets
  published : ∀ id ∈ t.targets, Published db.ledger.records id
  distinct : t.targets.Nodup

/-! ### What is kept -/

/-- The acquisition froze updates on the target that its generation had. -/
def Granted (db : Db) (t : Trace) (c : Coordination) : Prop :=
  ∃ before base, (c.id, before) ∈ t.grants ∧ before.target "main" = some base ∧
    Selected before base (db.inputIds c.id) ∧ c.expectedGeneration ≤ db.generation "main" ∧
    (c.expectedGeneration = db.generation "main" → db.target "main" = some base)

structure History (db : Db) (t : Trace) : Prop where
  count : db.generation "main" = t.targets.length
  current : db.target "main" = t.targets.head?
  chain : Chain db t t.targets
  granted : ∀ c ∈ db.registry.coordinations, c.referenceName = "main" → Granted db t c
  inputs : ∀ i ∈ db.registry.inputs, ∃ c ∈ db.registry.coordinations, c.id = i.attemptId

/-- The base of a record is the one its metadata names. -/
def Based (records : List Record) : Prop :=
  ∀ r ∈ records, r.baseRecordId = recordBaseId r.kind r.metadata

section Chains

variable {db : Db} {t : Trace} {l : List Id}

theorem Chain.published (h : Chain db t l) :
    ∀ id ∈ l, ∃ r ∈ db.ledger.records, r.id = id ∧ r.state = .published := by
  induction l with
  | nil => exact fun _ h => absurd h List.not_mem_nil
  | cons a l ih =>
    cases l with
    | nil =>
      obtain ⟨r, hr, hid, hs, -⟩ := h
      intro id hmem
      exact ⟨r, hr, hid.trans (List.mem_singleton.mp hmem).symm, hs⟩
    | cons b l =>
      obtain ⟨⟨r, hr, hid, hs, -⟩, hrest⟩ := h
      intro id hmem
      rcases List.mem_cons.mp hmem with rfl | hmem
      · exact ⟨r, hr, hid, hs⟩
      · exact ih hrest id hmem

/-- Each target but the latest is the base of a published record. -/
theorem Chain.bases (h : Chain db t l) :
    ∀ id ∈ l.tail, ∃ r ∈ db.ledger.records, r.state = .published ∧ r.baseRecordId = some id := by
  induction l with
  | nil => exact fun _ h => absurd h List.not_mem_nil
  | cons a l ih =>
    cases l with
    | nil => exact fun _ h => absurd h List.not_mem_nil
    | cons b l =>
      obtain ⟨⟨r, hr, -, hs, hb, -⟩, hrest⟩ := h
      intro id hmem
      rcases List.mem_cons.mp hmem with rfl | hmem
      · exact ⟨r, hr, hs, hb⟩
      · exact ih hrest id hmem

theorem Chain.line (hk : Table.Keyed Record.id db.ledger.records) (h : Chain db t l) :
    Descent.Line db.baseOf l := by
  have hbase : ∀ r ∈ db.ledger.records, db.baseOf r.id = r.baseRecordId := by
    intro r hr
    unfold Db.baseOf Ledger.record
    rw [hk.get_eq hr]
    rfl
  induction l with
  | nil => trivial
  | cons a l ih =>
    cases l with
    | nil =>
      obtain ⟨r, hr, rfl, -, hb, -⟩ := h
      exact (hbase r hr).trans hb
    | cons b l =>
      obtain ⟨⟨r, hr, rfl, -, hb, -⟩, hrest⟩ := h
      exact ⟨(hbase r hr).trans hb, ih hrest⟩

theorem History.linear (hk : Table.Keyed Record.id db.ledger.records) (h : History db t) :
    Linear db t :=
  ⟨h.count, h.current, h.chain, h.chain.published, (h.chain.line hk).nodup⟩

/-- Something depends on every target. -/
theorem History.not_free (h : History db t) {id : Id} (hid : id ∈ t.targets) :
    ¬ Intact.Free db.ledger.records db.registry.references id := by
  rintro ⟨href, hbase⟩
  cases htargets : t.targets with
  | nil => simp [htargets] at hid
  | cons a rest =>
    rw [htargets] at hid
    rcases List.mem_cons.mp hid with rfl | hid
    · -- The latest is where `main` points.
      have hcurrent := h.current
      rw [htargets, List.head?_cons] at hcurrent
      obtain ⟨reference, hreference, hrid⟩ := Option.map_eq_some_iff.mp hcurrent
      exact href reference (reference_name hreference).1 hrid
    · have hchain := h.chain
      rw [htargets] at hchain
      obtain ⟨r, hr, hs, hb⟩ := hchain.bases id hid
      exact hbase r hr hs hb

end Chains

/-! ### One transaction -/

/-- What a transaction does to the acquisitions. -/
structure Advance (db db' : Db) : Prop where
  /-- A new acquisition of `main` freezes updates on its target. -/
  rows : ∀ c' ∈ db'.registry.coordinations,
    (∃ c ∈ db.registry.coordinations, c.id = c'.id ∧ c.referenceName = c'.referenceName ∧
      c.expectedGeneration = c'.expectedGeneration) ∨
    db.coordination c'.id = none ∧
      (c'.referenceName = "main" → ∃ base, db.target "main" = some base ∧
      c'.expectedGeneration = db.generation "main" ∧ Selected db base (db'.inputIds c'.id))
  done : ∀ c ∈ db.registry.coordinations, c.state = .completed → c ∈ db'.registry.coordinations
  frozen : ∀ c ∈ db.registry.coordinations, db'.inputIds c.id = db.inputIds c.id
  inputs : (∀ i ∈ db.registry.inputs, ∃ c ∈ db.registry.coordinations, c.id = i.attemptId) →
    ∀ i ∈ db'.registry.inputs, ∃ c ∈ db'.registry.coordinations, c.id = i.attemptId

namespace Advance

variable {db db' : Db}

/-- The acquisitions and their inputs are the same. -/
theorem of_eq (hc : db'.registry.coordinations = db.registry.coordinations)
    (hi : db'.registry.inputs = db.registry.inputs) : Advance db db' where
  rows c' hc' := Or.inl ⟨c', hc ▸ hc', rfl, rfl, rfl⟩
  done c hmem _ := hc ▸ hmem
  frozen c _ := by
    unfold Db.inputIds
    rw [hi]
  inputs h := by
    rw [hc, hi]
    exact h

/-- The acquisition that holds its reference is renewed, abandoned or completed. -/
theorem put (hx : db.Indexed) {c : Coordination} (c' : Coordination)
    (hc : c ∈ db.registry.coordinations) (ha : c.state = .active) (hid : c'.id = c.id)
    (hname : c'.referenceName = c.referenceName)
    (hgen : c'.expectedGeneration = c.expectedGeneration)
    (hcoord : db'.registry.coordinations = Table.put Coordination.id c' db.registry.coordinations)
    (hi : db'.registry.inputs = db.registry.inputs) : Advance db db' where
  rows x hx := by
    rw [hcoord] at hx
    rcases Table.of_mem_put hx with ⟨hx, -⟩ | rfl
    · exact Or.inl ⟨x, hx, rfl, rfl, rfl⟩
    · exact Or.inl ⟨c, hc, hid.symm, hname.symm, hgen.symm⟩
  done x hmem hs := by
    rw [hcoord]
    refine Table.mem_put_of_ne hmem fun he => ?_
    rw [hx.coordinations.eq_of_key_eq hmem hc (he.trans hid), ha] at hs
    simp at hs
  frozen x _ := by
    unfold Db.inputIds
    rw [hi]
  inputs h i hmem := by
    rw [hi] at hmem
    obtain ⟨x, hx, he⟩ := h i hmem
    rw [hcoord]
    by_cases hxc : x.id = c'.id
    · exact ⟨c', Table.mem_put_self hc hid, hxc.symm.trans he⟩
    · exact ⟨x, Table.mem_put_of_ne hx hxc, he⟩

/-- An acquisition is granted. -/
theorem grant (hx : db.Indexed)
    (hinputs : ∀ i ∈ db.registry.inputs, ∃ c ∈ db.registry.coordinations, c.id = i.attemptId)
    {reference : Reference} {holder : Id} {leaseUntil createdAt : Time} {ids : List Id}
    (hn : db.reference reference.name = some reference)
    (hsel : reference.name = "main" → Selected db reference.recordId ids)
    (h : db'.registry = db.registry.grant reference (db.ledger.fresh 0) holder leaseUntil
      createdAt ids) :
    Advance db db' := by
  have hcoord : db'.registry.coordinations =
      db.registry.coordinations.map (Registry.expireFor reference.name) ++
      [{ id := db.ledger.fresh 0, referenceName := reference.name,
         expectedGeneration := reference.generation, holder, fence := reference.fence + 1,
         state := .active, leaseUntil, createdAt }] := by
    rw [h]
    rfl
  have hins : db'.registry.inputs = db.registry.inputs ++ ids.map fun id =>
      ⟨db.ledger.fresh 0, id⟩ := by
    rw [h]
    rfl
  have hfresh : ∀ c ∈ db.registry.coordinations, c.id ≠ db.ledger.fresh 0 :=
    fun c hc => (hx.minted c hc).ne_fresh 0
  -- The new identifier has the new inputs, and the others those they had.
  have hnew : db'.inputIds (db.ledger.fresh 0) = ids := by
    unfold Db.inputIds
    rw [hins, List.filter_append, List.filter_eq_nil_iff.mpr, List.nil_append, List.filter_map,
      List.map_map]
    · simp [Function.comp_def]
    · intro i hi
      obtain ⟨c, hc, he⟩ := hinputs i hi
      simpa [← he] using hfresh c hc
  refine ⟨fun c' hc' => ?_, fun c hc hs => ?_, fun c hc => ?_, fun _ i hi => ?_⟩
  · rw [hcoord] at hc'
    rcases Table.mem_concat.mp hc' with hc' | rfl
    · obtain ⟨c, hc, rfl⟩ := List.mem_map.mp hc'
      refine Or.inl ⟨c, hc, ?_⟩
      unfold Registry.expireFor
      split_ifs <;> exact ⟨rfl, rfl, rfl⟩
    · refine Or.inr ⟨?_, fun hmain => ⟨reference.recordId, ?_, ?_, ?_⟩⟩
      · cases hget : db.coordination (db.ledger.fresh 0) with
        | none => rfl
        | some c =>
          obtain ⟨hc, he⟩ := Table.get_mem hget
          exact absurd he (hfresh c hc)
      · rw [Db.target, ← show reference.name = "main" from hmain, hn]
        rfl
      · rw [Db.generation, ← show reference.name = "main" from hmain, hn]
        rfl
      · rw [hnew]
        exact hsel hmain
  · rw [hcoord]
    refine List.mem_append_left _ (List.mem_map.mpr ⟨c, hc, ?_⟩)
    unfold Registry.expireFor
    rw [if_neg fun h => by simp [hs] at h]
  · have hnone : (ids.map fun id => (⟨db.ledger.fresh 0, id⟩ : CoordinationInput)).filter
      (·.attemptId = c.id) = [] := by
      refine List.filter_eq_nil_iff.mpr fun i hi => ?_
      obtain ⟨id, -, rfl⟩ := List.mem_map.mp hi
      simpa using (hfresh c hc).symm
    unfold Db.inputIds
    rw [hins, List.filter_append, hnone, List.append_nil]
  · rw [hins] at hi
    rw [hcoord]
    rcases List.mem_append.mp hi with hi | hi
    · obtain ⟨c, hc, he⟩ := hinputs i hi
      exact ⟨_, List.mem_append_left _ (List.mem_map_of_mem hc),
        (Registry.expireFor_id _ c).trans he⟩
    · obtain ⟨id, -, rfl⟩ := List.mem_map.mp hi
      exact ⟨_, List.mem_append_right _ (List.mem_singleton.mpr rfl), rfl⟩

end Advance

section Keep

variable {db db' : Db} {t : Trace}

theorem Trace.grants_extend : t.grants ⊆ (t.extend db db').grants :=
  fun _ h => List.mem_append_right _ h

theorem Trace.granted_extend {c : Coordination} (hc : c ∈ db'.registry.coordinations)
    (hn : db.coordination c.id = none) :
    (c.id, db) ∈ (t.extend db db').grants :=
  List.mem_append_left _ (List.mem_map.mpr ⟨c, List.mem_filter.mpr ⟨hc, by simp [hn]⟩, rfl⟩)

/-- The rows of the targets stay. -/
def Kept (db db' : Db) (ids : List Id) : Prop :=
  ∀ r ∈ db.ledger.records, r.state = .published → r.id ∈ ids → ∃ r' ∈ db'.ledger.records,
    r.Unaltered r'

theorem First.keep {id : Id} (h : First db id) (hkept : Kept db db' [id]) : First db' id := by
  obtain ⟨r, hr, hid, hs, hb, hi⟩ := h
  obtain ⟨r', hr', hu⟩ := hkept r hr hs (List.mem_singleton.mpr hid)
  exact ⟨r', hr', hu.id.trans hid, hu.state.trans hs, hu.baseRecordId.trans hb,
    hu.kind.trans hi.kind,
    by rw [hu.metadata]; exact hi.base, by rw [hu.metadata]; exact hi.inputs⟩

theorem Next.keep {prev id : Id} (h : Next db t prev id) (hkept : Kept db db' [id])
    (ha : Advance db db') :
    Next db' (t.extend db db') prev id := by
  obtain ⟨r, hr, hid, hs, hb, inputs, hagg, c, hc⟩ := h
  obtain ⟨r', hr', hu⟩ := hkept r hr hs (List.mem_singleton.mpr hid)
  obtain ⟨before, hgrant, hrest⟩ := hc.granted
  refine ⟨r', hr', hu.id.trans hid, hu.state.trans hs, hu.baseRecordId.trans hb, inputs, ?_, c, ?_⟩
  · exact ⟨hu.kind.trans
      hagg.kind, by rw [hu.metadata]; exact hagg.base, by rw [hu.metadata]; exact hagg.inputs,
      hagg.nodup, hagg.minimum⟩
  · exact ⟨ha.done c hc.mem hc.completed, hc.main, hc.completed,
      hc.result, by rw [ha.frozen c hc.mem]; exact hc.frozen, before,
      Trace.grants_extend hgrant, hrest⟩

theorem Chain.keep {l : List Id} (h : Chain db t l) (hkept : Kept db db' l) (ha : Advance db db') :
    Chain db' (t.extend db db') l := by
  induction l with
  | nil => trivial
  | cons a l ih =>
    have hone : Kept db db' [a] :=
      fun r hr hs hid => hkept r hr hs (List.mem_singleton.mp hid ▸ List.mem_cons_self)
    cases l with
    | nil => exact First.keep h hone
    | cons b l =>
      refine ⟨Next.keep h.1 hone ha, ih h.2 fun r hr hs hid => ?_⟩
      exact hkept r hr hs (List.mem_cons_of_mem a hid)

/-- What the transaction does to `main`: nothing, or it moves it to a next target. -/
inductive Turn (db db' : Db) (t : Trace) : Prop
  | stay (hg : db'.generation "main" = db.generation "main")
    (ht : db'.target "main" = db.target "main")
  | first (id : Id) (hg : db'.generation "main" = db.generation "main" + 1)
    (ht : db'.target "main" = some id)
    (hnone : db.target "main" = none) (h : First db' id)
  | next (prev id : Id) (hg : db'.generation "main" = db.generation "main" + 1)
    (ht : db'.target "main" = some id)
    (hprev : db.target "main" = some prev) (h : Next db' (t.extend db db') prev id)

theorem Turn.generation (h : Turn db db' t) :
    db'.generation "main" = db.generation "main" ∧ db'.target "main" = db.target "main" ∨
      db'.generation "main" = db.generation "main" + 1 := by
  cases h with
  | stay hg ht => exact Or.inl ⟨hg, ht⟩
  | first id hg _ _ _ | next prev id hg _ _ _ => exact Or.inr hg

/-- **One transaction extends the history.** -/
theorem History.extend (h : History db t) (hkept : Kept db db' t.targets) (ha : Advance db db')
    (hturn : Turn db db' t) :
    History db' (t.extend db db') := by
  have hchain := h.chain.keep hkept ha
  -- A target that is added stands before the others.
  have hadd : ∀ id, db'.generation "main" = db.generation "main" + 1 → db'.target "main" = some id →
      (t.extend db db').targets = id :: t.targets := by
    intro id hg ht
    unfold Trace.extend
    rw [if_neg (by omega), ht]
    rfl
  refine ⟨?_, ?_, ?_, fun c' hc' hmain => ?_, ha.inputs h.inputs⟩
  · cases hturn with
    | stay hg _ => rw [show (t.extend db db').targets = t.targets from if_pos hg, hg, h.count]
    | first id hg ht _ _ | next prev id hg ht _ _ =>
      rw [hadd id hg ht, hg, h.count, List.length_cons]
  · cases hturn with
    | stay hg ht => rw [show (t.extend db db').targets = t.targets from if_pos hg, ht, h.current]
    | first id hg ht _ _ | next prev id hg ht _ _ => rw [hadd id hg ht, ht, List.head?_cons]
  · cases hturn with
    | stay hg _ =>
      rw [show (t.extend db db').targets = t.targets from if_pos hg]
      exact hchain
    | first id hg ht hnone hfirst =>
      have hnil : t.targets = [] := List.head?_eq_none_iff.mp (h.current.symm.trans hnone)
      rw [hadd id hg ht, hnil]
      exact hfirst
    | next prev id hg ht hprev hnext =>
      obtain ⟨rest, hrest⟩ := List.head?_eq_some_iff.mp (h.current.symm.trans hprev)
      rw [hadd id hg ht, hrest]
      rw [hrest] at hchain
      exact ⟨hnext, hchain⟩
  · rcases ha.rows c' hc' with ⟨c, hc, hid, hname, hgen⟩ | ⟨hnone, hnew⟩
    · -- The target it was granted at stands until `main` moves, and then its generation is past.
      obtain ⟨before, base, hgrant, htarget, hsel, hle, hpin⟩ := h.granted c hc (hname.trans hmain)
      refine ⟨before, base, hid ▸ Trace.grants_extend hgrant, htarget, ?_, ?_, fun he => ?_⟩
      · rw [← hid, ha.frozen c hc]
        exact hsel
      · rcases hturn.generation with ⟨hg, -⟩ | hg <;> omega
      · rcases hturn.generation with ⟨hg, ht⟩ | hg
        · rw [ht]
          exact hpin (by omega)
        · omega
    · obtain ⟨base, htarget, hexp, hsel⟩ := hnew hmain
      refine ⟨db, base, Trace.granted_extend hc' hnone, htarget, hsel, ?_, fun he => ?_⟩
      · rcases hturn.generation with ⟨hg, -⟩ | hg <;> omega
      · rcases hturn.generation with ⟨hg, ht⟩ | hg
        · rw [ht, htarget]
        · omega

end Keep

end Hf2l.Exchange.FedAvg
