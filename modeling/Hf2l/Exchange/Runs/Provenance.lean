import Hf2l.Exchange.Go.Accounting
import Hf2l.Exchange.Go.Effects
import Hf2l.Exchange.Python.Accounting
import Hf2l.Exchange.Python.Effects
import Hf2l.Exchange.Service.Provenance

/-!
# `Hf2l.Exchange.Runs.Provenance`: bases along the runs of the two services

Along a run the bases stay acyclic exactly as long as no patch that is accepted asks for its own
draft, or for a record that descends from it, as the base (`AmendsForward`, a condition on the
request and on the state before it). In every state a set of disposable records can be purged
completely exactly when it is detached; so one record on a cycle stays for good.

`selfBased_stays` is a run in which a draft is patched to be its own base.
-/

set_option autoImplicit false

namespace Hf2l.Exchange

open Lib Lib.Checked
open Service (Administers purgeAll)

/-- The base that a patch of the draft asks for: its metadata name it, if the kind has bases. -/
def Db.requestedBase (d : Dialect) (db : Db) (id : Id) (metadata : Json) : Option Id :=
  match db.ledger.record id, d.profiles db.ledger.space.profile with
  | some r, .ok profile => profile.recordBaseId r.kind metadata.fields
  | _, _ => none

/-- A patch that is accepted asks for no base that is its draft or descends from it. -/
def AmendsForward (d : Dialect) (env : Env) (clock : Clock) (db : Db)
    (call : Option (Principal × Command)) : Prop :=
  ∀ p id metadata version, call = some (p, .patchRecord id metadata version) →
    (∃ out, Service.patchRecord d env p id metadata version clock db = .ok out) →
      ∀ base, db.requestedBase d id metadata = some base → ¬ db.Descends base id

/-- What a run does to bases, and what can be purged. -/
structure Provenance {τ : Type} (env : Env) (step : Db → τ → Db) (forward : Db → τ → Prop) (db : Db)
    (txs : List τ) : Prop where
  acyclic : Run.Always step Db.Acyclic db txs ↔ Run.Every step forward db txs
  /-- An administrator can purge a set of disposable records completely, in some order. -/
  purgeable : Run.Always step (fun db => ∀ p clock ids, Administers env db p (clock 0) → ids.Nodup →
    (∀ id ∈ ids, db.Disposable id) →
      ((∃ order db', order.Perm ids ∧ purgeAll env p clock db order = .ok db' ∧
        ∀ id ∈ ids, db'.ledger.record id = none) ↔ db.Detached ids)) db txs

/-- What holds of the rows in every run. -/
structure Db.Planted (db : Db) : Prop where
  sound : db.ledger.Sound
  grounded : Forest.Grounded db.links

/-- A transaction fails and changes nothing, or it writes the forest, and what it may hang elsewhere
is hung forward exactly if the request is. -/
def WritesForest (forward : Prop) (db db' : Db) : Prop :=
  (db' = db ∧ forward) ∨ ∃ k, Forest.Step db.links k db'.links ∧
    (forward ↔ ∀ id, k = some id → ∀ base, db'.baseOf id = some base → ¬ db.Descends base id)

/-- **A system whose transactions write the forest.** -/
theorem provenance_of_forest {τ : Type} {env : Env} {step : Db → τ → Db} {forward : Db → τ → Prop}
    (hstep : ∀ db tx, db.ledger.Sound →
      (step db tx).ledger.Sound ∧ WritesForest (forward db tx) db (step db tx))
    {db : Db} (h : db.Planted) (hacyclic : db.Acyclic) (txs : List τ) :
    Provenance env step forward db txs := by
  have hkeep : ∀ db tx, db.Planted → (step db tx).Planted := by
    intro db tx hdb
    obtain ⟨hs, ⟨he, -⟩ | ⟨k, hf, -⟩⟩ := hstep db tx hdb.sound
    · rw [he]
      exact hdb
    · exact ⟨hs, hf.grounded hdb.grounded⟩
  refine ⟨Run.always_iff_every hkeep (fun db tx hdb ha => ?_) h hacyclic txs,
    Run.always_of_invariant hkeep (fun db hdb p clock ids hadmin hnodup hd => ?_) h txs⟩
  · obtain ⟨-, ⟨he, hforward⟩ | ⟨k, hf, hiff⟩⟩ := hstep db tx hdb.sound
    · rw [he]
      exact ⟨fun _ => hforward, fun _ => ha⟩
    · unfold Db.Acyclic Db.Descends at *
      rw [Db.baseOf_eq] at ha hiff ⊢
      rw [hiff, Db.baseOf_eq]
      exact hf.acyclic_iff hdb.grounded ha
  · exact Service.purgeable_iff hdb.grounded hadmin hnodup hd

section
variable {d : Dialect} {env : Env} {clock : Clock} {db db' : Db}

/-- **The draft has the base that was asked for.** -/
theorem patchRecord_baseOf {p : Principal} {id : Id} {metadata : Json} {version : String}
    {response : Response} (hs : db.ledger.Sound)
    (h : Service.patchRecord d env p id metadata version clock db = .ok (db', response)) :
    db'.baseOf id = db.requestedBase d id metadata := by
  simp only [Service.patchRecord, block_ok] at h
  obtain ⟨member, -, r, hr, -, -, -, -, size, -, profile, hprofile, -, -, -, -, rfl, -⟩ := h
  have hrecord := Service.record_ok hr
  obtain ⟨hmem, rfl⟩ := Table.get_mem hrecord
  have hnew := (Table.get_put hs.records hmem (Service.amended r metadata.fields size
    (profile.recordBaseId r.kind metadata.fields)) rfl r.id).trans (if_pos rfl)
  unfold Db.requestedBase
  rw [hrecord, hprofile]
  exact congrArg (Option.bind · Record.baseRecordId) hnew

theorem Stepped.forest {call : Option (Principal × Command)} {ids : List Nat}
    (h : Stepped d env clock db call ids db') (hs : db.ledger.Sound) {w : Allowance}
    (he : Effect w db.ledger db'.ledger) :
    db'.ledger.Sound ∧ WritesForest (AmendsForward d env clock db call) db db' := by
  refine ⟨he.sound hs, ?_⟩
  cases h with
  | failed _ _ h =>
    refine Or.inl ⟨rfl, fun p id metadata version hc ⟨out, hout⟩ => ?_⟩
    obtain ⟨e, he⟩ := h p _ hc
    cases he.symm.trans hout
  | command p c _ h =>
    refine Or.inr ⟨c.deed.amends, (c.run_committed h).forest hs, fun hf id hid base hb => ?_,
      fun hf => ?_⟩
    · cases c with
      | patchRecord id' metadata version =>
        cases hid
        exact hf p id metadata version rfl ⟨_, h⟩ base (patchRecord_baseOf hs h ▸ hb)
      | _ => cases hid
    · rintro _ id metadata version ⟨⟩ - base hb
      exact hf id rfl base ((patchRecord_baseOf hs h).trans hb)
  | transfer h =>
    exact Or.inr ⟨none, h.forest hs, fun _ _ hk => (nomatch hk), fun _ _ _ _ _ hc => (nomatch hc)⟩

end

/-- The condition on one transaction of the Python service. -/
def Python.Forward (env : Env) (db : Db) (tx : Tx × Clock) : Prop :=
  AmendsForward dialect env tx.2 db tx.1.call

/-- The condition on one transaction of the Go service. -/
def Go.Forward (env : Env) (db : Db) (tx : Tx × Clock) : Prop :=
  AmendsForward dialect env tx.2 db tx.1.call

/-- **Bases are acyclic exactly as long as patches amend forward, and then a set of disposable
records that contains the records made on its own can be purged.** For both services, along every
run from a new space with any profile. -/
theorem provenance_acyclic_iff (env : Env) (spaceId profile : String) (limits : Limits)
    (creator : Principal) (now : Time) :
    (∀ txs : List (Python.Tx × Clock), Provenance env (Python.step env) (Python.Forward env)
        (Db.created spaceId profile limits creator now) txs) ∧
      ∀ txs : List (Go.Tx × Clock), Provenance env (Go.step env) (Go.Forward env)
        (Db.created spaceId profile limits creator now) txs := by
  have hplanted : (Db.created spaceId profile limits creator now).Planted :=
    ⟨(Db.created_accounted spaceId profile limits creator now).toSound,
      List.nodup_nil, fun _ h => absurd h List.not_mem_nil⟩
  have hacyclic : (Db.created spaceId profile limits creator now).Acyclic := by
    intro id hcycle
    obtain ⟨x, -, hx⟩ := Relation.TransGen.tail'_iff.mp hcycle
    simp [Descent.Parent, Db.baseOf, Db.created, Ledger.record, Table.get] at hx
  exact ⟨provenance_of_forest (fun db tx hs =>
      (Python.step_stepped env db tx).forest hs (Python.step_effect env hs tx)) hplanted hacyclic,
    provenance_of_forest (fun db tx hs =>
      (Go.step_stepped env db tx).forest hs (Go.step_effect env hs tx fun _ => trivial)) hplanted
        hacyclic⟩

namespace Sample

/-- A draft of a global model is patched to be its own base, and cancelled. -/
def selfBased : List Command :=
  [.registerType "model.global" ⟨.obj [], none, none⟩ "type",
    .createRecord ⟨"model.global", "0", .obj [], []⟩ "record",
    .patchRecord "1" (.obj [("base_record_id", .str "1")]) "1",
    .withdrawRecord "1"]

def averaging : Db := Db.created "space" "fedavg.v1" limits owner 0

/-- The end of the run of the Python service. -/
def selfBasedPython : Db :=
  Python.run env averaging (selfBased.map fun c => (.command owner c, still 0))

/-- The end of the run of the Go service. -/
def selfBasedGo : Db := Go.run env averaging (selfBased.map fun c => (.command owner c, still 0))

end Sample

/-- **A draft can be its own base, in both services, and then it is never purged.** -/
theorem selfBased_stays :
    (¬ Sample.selfBasedPython.Acyclic ∧ Sample.selfBasedPython.Disposable "1" ∧
        (Python.purgeRecord Sample.env Sample.owner "1" (Sample.still 0) Sample.selfBasedPython).map
          (fun _ => ()) = .error (err 409 "record_retained_for_provenance")) ∧
      ¬ Sample.selfBasedGo.Acyclic ∧ Sample.selfBasedGo.Disposable "1" ∧
        (Go.purgeRecord Sample.env Sample.owner "1" (Sample.still 0) Sample.selfBasedGo).map
          (fun _ => ()) = .error (err 409 "record_retained_for_provenance") := by
  have hself : Sample.selfBasedPython.baseOf "1" = some "1" := by decide +kernel
  have hself' : Sample.selfBasedGo.baseOf "1" = some "1" := by decide +kernel
  have hstate : (Sample.selfBasedPython.ledger.record "1").any (·.state.terminal) =
      true := by decide +kernel
  have hstate' : (Sample.selfBasedGo.ledger.record "1").any (·.state.terminal) =
      true := by decide +kernel
  refine ⟨⟨fun h => h "1" (.single hself),
    ⟨(Option.any_eq_true _ _).mp hstate, ?_, ?_, ?_, ?_⟩, ?_⟩,
    fun h => h "1" (.single hself'), ⟨(Option.any_eq_true _ _).mp hstate', ?_, ?_, ?_, ?_⟩,
      ?_⟩ <;> decide +kernel

end Hf2l.Exchange
