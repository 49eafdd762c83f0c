import Hf2l.Exchange.Service.Transferred
import Hf2l.Lib.Journal

/-!
# `Hf2l.Exchange.Service.Log`: stored operations and the log of events

Every command stores what `once` asks for and emits its events after all its checks, in one
transaction. `Command.Executed` lists what a command that succeeded can have done to these two
tables: a command without a key stores nothing; a guarded command is a replay, which writes
nothing at all, or its first execution, which stores one operation; and the completion of an
acquisition that is completed answers from its row.

Of the other tables, five commands write references and acquisitions, and four write the managed
space, its grants and its revocations (`Command.Beside`).

The log of a space is a journal (`Db.journal`): a command appends events at readings of its
clock, one after the other, and only `purge_record` drops any.
-/

set_option autoImplicit false

namespace Hf2l.Exchange

open Lib Lib.Checked

/-- The tables of workloads are the same. -/
structure Db.SameWorkloads (db db' : Db) : Prop where
  managed : db'.managed = db.managed
  grants : db'.grants = db.grants
  revocations : db'.revocations = db.revocations

def Command.writesReferences : Command → Bool
  | .putReference .. | .acquire .. | .renew .. | .abandon .. | .complete .. => true
  | _ => false

def Command.writesWorkloads : Command → Bool
  | .enableManagedSpace .. | .retireManagedSpace .. | .createWorkloadGrant ..
  | .revokeWorkloadGrants .. => true
  | _ => false

/-- The tables that the command does not write are the same. -/
structure Command.Beside (c : Command) (db db' : Db) : Prop where
  registry : c.writesReferences = false → db'.registry = db.registry
  workloads : c.writesWorkloads = false → db.SameWorkloads db'

section
variable {c : Command} {db db' : Db}

/-- A command on references and coordinations. -/
theorem Command.Beside.references (h : c.writesReferences = true) (hw : db.SameWorkloads db') :
    c.Beside db db' :=
  ⟨fun hno => (by rw [h] at hno; cases hno), fun _ => hw⟩

/-- A command on a managed space or on its grants. -/
theorem Command.Beside.managing (h : c.writesWorkloads = true) (hr : db'.registry = db.registry) :
    c.Beside db db' :=
  ⟨fun _ => hr, fun hno => by rw [h] at hno; cases hno⟩

end

/-- The events of the space, with the floor of their retention. -/
def Db.journal (db : Db) : Journal Event := ⟨db.events, db.eventSeq, db.ledger.space.eventFloor⟩

/-- No operation is stored, and events are written up to the reading `k`. -/
structure Db.Logged (clock : Clock) (db : Db) (k : Nat) (db' : Db) : Prop where
  operations : db'.operations = db.operations
  events : Journal.Written Event.id Event.createdAt clock db.journal k db'.journal

namespace Db.Logged

variable {clock : Clock} {db db₁ db₂ : Db} {i k : Nat}

theorem refl (db : Db) : db.Logged clock 0 db := ⟨rfl, .same⟩

/-- Other tables are written. -/
theorem beside (h : db.Logged clock k db₁) (ho : db₂.operations = db₁.operations)
    (hj : db₂.journal = db₁.journal) :
    db.Logged clock k db₂ :=
  ⟨ho.trans h.operations, by rw [hj]; exact h.events⟩

theorem emit (h : db.Logged clock i db₁) (hik : i ≤ k) (type : String) (principalId : Id)
    (recordId : Option Id) (payload : Fields) :
    db.Logged clock k (db₁.emit type principalId recordId payload (clock k)) :=
  ⟨h.operations, h.events.append hik _ rfl rfl⟩

/-- A transaction that writes other tables and ends with an event. -/
theorem emitted (ho : db₁.operations = db.operations) (hj : db₁.journal = db.journal) (k : Nat)
    (type : String) (principalId : Id) (recordId : Option Id) (payload : Fields) :
    db.Logged clock k (db₁.emit type principalId recordId payload (clock k)) :=
  ((refl db).beside ho hj).emit (Nat.zero_le k) ..

end Db.Logged

/-- The arguments of `once`. -/
structure Guard where
  scope : String
  key : String
  request : Request

/-- What `once` is called with, if the command has an idempotency key. -/
def Command.guard : Command → Option Guard
  | .createRecord body key => some ⟨"record.create", key, .record body⟩
  | .publishRecord id key => some ⟨"record.publish:" ++ id, key, .publish⟩
  | .putReference name id token key => some ⟨"reference.put:" ++ name, key, .reference id token⟩
  | .acquire body key => some ⟨"acquisition.create", key, .acquisition body⟩
  | .complete id body key => some ⟨"acquisition.complete:" ++ id, key, .completion body⟩
  | .enableManagedSpace jobId _ key => some ⟨"space.managed", key, .managed jobId⟩
  | .retireManagedSpace jobId key => some ⟨"space.managed.retire", key, .retire jobId⟩
  | .createWorkloadGrant body key => some ⟨"workload.grant", key, .grant body⟩
  | .revokeWorkloadGrants attemptId key => some ⟨"workload.revoke", key, .revoke attemptId⟩
  | .registerType kind body key => some ⟨"type.register:" ++ kind, key, .type body⟩
  | _ => none

/-- What the command answers when `once` returned `stored`. `acquire` reads the acquisition
again. -/
def Command.Answers (c : Command) (db : Db) (stored response : Response) : Prop :=
  match c with
  | .acquire _ _ => ∃ view row, stored = .acquisition view ∧ db.coordination view.id = some row ∧
      response = .acquisition (Service.acquisitionDict db row)
  | _ => response = stored

/-- What a command that succeeded has done to the stored operations and to the log. -/
inductive Command.Executed (env : Env) (p : Principal) (clock : Clock) (db : Db) (c : Command) :
    Db → Response → Prop
  | unguarded {k : Nat} {db' : Db} {response : Response} (hg : c.guard = none)
    (h : db.Logged clock k db') :
    Executed env p clock db c db' response
  /-- A completion that was made before, with the same result. -/
  | settled (id : Id) (body : CompletionBody) (key : String) (row : Coordination)
    (hc : c = .complete id body key)
    (hrow : db.coordination id = some row) (hdone : row.state = .completed)
    (hf : row.fence = body.fence)
    (hr : row.resultRecordId = some body.resultRecordId) :
    Executed env p clock db c db (.acquisition (Service.acquisitionDict db row))
  | replayed {g : Guard} {o : Operation} {response : Response} (hg : c.guard = some g)
    (ho : db.operation p.id g.scope g.key = some o) (hh : o.requestHash = env.digest g.request)
    (ha : c.Answers db o.response response) : Executed env p clock db c db response
  | first {g : Guard} {k : Nat} {db₁ db' : Db} {stored response : Response} {now : Time}
    (hg : c.guard = some g)
    (ho : db.operation p.id g.scope g.key = none) (hl : db.Logged clock k db₁)
    (h : db' = { db₁ with operations :=
      db₁.operations ++ [⟨p.id, g.scope, g.key, env.digest g.request, stored, now⟩] })
    (ha : c.Answers db' stored response) : Executed env p clock db c db' response

/-- What a command that succeeded has done to the tables that the invariants read, to these two, and
to those it does not write. -/
structure Command.Did (c : Command) (d : Dialect) (env : Env) (p : Principal) (clock : Clock)
    (db db' : Db) (response : Response) : Prop where
  committed : Service.Committed d db c.deed db'
  executed : c.Executed env p clock db db' response
  beside : c.Beside db db'

/-- Whenever the command returns, it has done that. -/
def Command.Does (c : Command) : Prop :=
  ∀ {d env p clock db db' response}, c.run d env p clock db = .ok (db', response) →
    c.Did d env p clock db db' response

namespace Service

variable {d : Dialect} {env : Env} {db db' : Db} {p : Principal} {clock : Clock}
  {response : Response}

/-- A guarded command, from what its action does. The stored operation is in none of the other
tables. -/
theorem once_did {c : Command} {scope key : String} {request : Request} {now : Time}
    {action : Except Error (Db × Response)} {stored : Response}
    (hc : c.deed = .retire ∨ c.deed = .other) (hg : c.guard = some ⟨scope, key, request⟩)
    (h : once env db p scope key request now action = .ok (db', stored))
    (hl : ∀ db₁ r, action = .ok (db₁, r) → (∀ db₂, db₁.Same db₂ → Committed d db c.deed db₂) ∧
      (∃ k, db.Logged clock k db₁) ∧ c.Beside db db₁)
    (ha : c.Answers db' stored response) : c.Did d env p clock db db' response := by
  rcases once_cases h with ⟨o, ho, hh, rfl, rfl⟩ | ⟨ho, db₁, h₁, hdb⟩
  · exact ⟨.idle hc (Db.Same.refl _), .replayed hg ho hh ha, fun _ => rfl, fun _ => ⟨rfl, rfl, rfl⟩⟩
  · obtain ⟨hs, ⟨k, hk⟩, hb⟩ := hl db₁ stored h₁
    refine ⟨hs db' (hdb ▸ ⟨rfl, rfl, rfl, rfl⟩), .first hg ho hk hdb ha, fun hr => ?_, fun hw => ?_⟩
    · exact hdb ▸ hb.registry hr
    · have hsame := hb.workloads hw
      exact hdb ▸ ⟨hsame.managed, hsame.grants, hsame.revocations⟩

/-! ### Records -/

variable {key : String} {id : Id}

theorem createRecord_did {body : RecordBody} : (Command.createRecord body key).Does := by
  intro d env p clock db db' response h
  simp only [Command.run, createRecord, block_ok] at h
  obtain ⟨member, -, -, h⟩ := h
  refine once_did (Or.inr rfl) rfl h (fun db₁ r h₁ => ?_) rfl
  simp only [createRecord.create, block_ok, refuse_ok, found_ok, not_or, Bool.not_eq_true,
    Bool.not_eq_false] at h₁
  obtain ⟨revision, -, hkind, policy, hpol, -, size, -, profile, hprof, hval, -, amount, hamount,
    ⟨hq1, hq2⟩, hq3, -, hbase, hex, rfl, -⟩ := h₁
  have hkind : revision.kind = body.kind := by simpa using hkind
  let row := newRecord env db.ledger p member revision policy body.metadata.fields
    (profile.recordBaseId body.kind body.metadata.fields) amount size (clock 1)
  have ha : Accepted d db.ledger row.kind row.metadata row.creatorBindings row.baseRecordId :=
    ⟨profile, hprof, hval, congrArg (profile.recordBaseId · _) hkind.symm⟩
  have ho : Opened db.ledger row (newBlobs env db.ledger row.id row.expiresAt body.attachments) :=
    { id := rfl
      draft := rfl
      base := hex
      ids := newBlobs_ids
      owner := fun b hb => (mem_newBlobs hb).1
      reserved := fun b hb => (mem_newBlobs hb).2
      declared := (checkAttachments_sum hamount).trans total_newBlobs.symm
      roomRecords := d.exceeds_sound _ _ _ hq1
      roomMetadata := d.exceeds_sound _ _ _ hq2
      roomBytes := d.bytesExceed_sound _ _ hq3 }
  exact ⟨fun db₂ hs => .create row _ policy ho hpol rfl ha ((Db.Same.emit ..).trans hs),
    ⟨2, .emitted (by rfl) (by rfl) 2 ..⟩, fun _ => rfl, fun _ => ⟨rfl, rfl, rfl⟩⟩

theorem patchRecord_did {metadata : Json} {version : String} :
    (Command.patchRecord id metadata version).Does := by
  intro d env p clock db db' response h
  simp only [Command.run, patchRecord, block_ok, refuse_ok, found_ok, Bool.not_eq_true,
    Bool.not_eq_false] at h
  obtain ⟨member, -, r, hr, hd, -, revision, -, size, -, profile, hprof, hval, hq, -, hex,
    rfl, -⟩ := h
  obtain ⟨hmem, rfl⟩ := record_mem hr
  exact ⟨.patch r metadata.fields size _ hmem (checkDraft_ok hd) ⟨profile, hprof, hval, rfl⟩ hex
    (d.exceeds_sound _ _ _ hq) (Db.Same.emit ..), .unguarded rfl (.emitted (by rfl) (by rfl) 2 ..),
      fun _ => rfl,
    fun _ => ⟨rfl, rfl, rfl⟩⟩

theorem publishRecord_did : (Command.publishRecord id key).Does := by
  intro d env p clock db db' response h
  simp only [Command.run, publishRecord, block_ok, found_ok] at h
  obtain ⟨member, -, r, hr, policy, hpol, -, h⟩ := h
  refine once_did (Or.inr rfl) rfl h (fun db₁ _ h₁ => ?_) rfl
  simp only [publishRecord.publish, block_ok, refuse_ok, found_ok, Bool.not_eq_false,
    List.all_eq_true] at h₁
  obtain ⟨hd, revision, -, _, -, profile, -, -, hbase, hv, rfl, -⟩ := h₁
  exact ⟨fun db₂ hs => .publish r policy _ (record_mem hr).1 (checkDraft_ok hd) hpol
    (checkBase_published hbase) hv
    ((Db.Same.emit ..).trans hs), ⟨3, .emitted (by rfl) (by rfl) 3 ..⟩, fun _ => rfl,
      fun _ => ⟨rfl, rfl, rfl⟩⟩

/-- A stopped record emits at the second reading it is given. -/
theorem release_logged {db₀ : Db} {k n : Nat} (h : db₀.Logged clock k db) (hk : k ≤ 1 + n)
    (r : Record) (state : RecordState) :
    ∃ k', k' ≤ 1 + n ∧ db₀.Logged clock k' (release d db r state fun i => clock (i + n)) := by
  unfold release
  split_ifs
  · exact ⟨k, hk, h⟩
  · have hstopped : db₀.Logged clock k
      { db with ledger := d.rule.release db.ledger r state (clock (0 + n)) } := by
      refine h.beside rfl ?_
      unfold Db.journal
      rw [ReleaseRule.release_counters]
    exact ⟨1 + n, Nat.le_refl _, hstopped.emit hk ..⟩

theorem release_workloads (db : Db) (r : Record) (state : RecordState) (clock : Clock) :
    db.SameWorkloads (release d db r state clock) := by
  unfold release
  split_ifs <;> exact ⟨rfl, rfl, rfl⟩

theorem withdrawRecord_did : (Command.withdrawRecord id).Does := by
  intro d env p clock db db' response h
  simp only [Command.run, withdrawRecord, block_ok, refuse_ok, Bool.not_eq_true, List.any_eq_false,
    decide_eq_true_eq, not_and] at h
  obtain ⟨member, -, r, hr, hb, href, -, rfl, -⟩ := h
  obtain ⟨hrm, hid⟩ := withdrawable_mem hr
  have hsame := release_same d db r stoppedState fun i => clock (i + 2)
  obtain ⟨k, -, hk⟩ :=
    release_logged (d := d) (n := 2) (.refl db) (Nat.zero_le _) r (stoppedState r)
  exact ⟨hid ▸ .withdraw r _ hrm (fun x hx hp he => hb x hx he hp) href hsame, .unguarded rfl hk,
    fun _ => hsame.registry, fun _ => release_workloads ..⟩

/-- The one command that drops events: those of the record, but for its end. -/
theorem purgeRecord_did : (Command.purgeRecord id).Does := by
  intro d env p clock db db' response h
  simp only [Command.run, purgeRecord, block_ok, refuse_ok, found_ok, not_or, Bool.not_eq_true,
    Bool.not_eq_false, List.any_eq_false, decide_eq_true_eq, ne_eq, not_not] at h
  obtain ⟨member, -, -, r, hr, ht, hclean, htokens, ⟨-, hbase, -⟩, href, rfl, -⟩ := h
  refine ⟨.purge r (Table.get_mem hr).1 ht (fun b hb => ⟨hclean b hb, htokens b hb⟩) hbase href
    ⟨rfl, rfl, rfl, rfl⟩, .unguarded rfl ⟨rfl, Journal.Written.same.write (Nat.zero_le 1)
      (fun e : Event => e.recordId ≠ some r.id ∨ e.type ∈ terminalEvents)
      ⟨db.eventSeq + 1, none, "record.purged", p.id, [("record_id", .str id)], clock 1⟩ rfl rfl⟩,
        ?_⟩
  exact ⟨fun _ => rfl, fun _ => ⟨rfl, rfl, rfl⟩⟩

/-! ### References -/

theorem putReference_did {name token : String} : (Command.putReference name id token key).Does := by
  intro d env p clock db db' response h
  simp only [Command.run, putReference, block_ok] at h
  obtain ⟨-, member, -, -, h⟩ := h
  refine once_did (Or.inr rfl) rfl h (fun db₁ _ h₁ => ?_) rfl
  simp only [putReference.put, block_ok] at h₁
  obtain ⟨r, hr, ht, h₁⟩ := h₁
  have htarget := checkTarget_ok (record_mem hr).1 ht
  split at h₁
  · rename_i hn
    simp only [block_ok, refuse_ok] at h₁
    obtain ⟨-, -, profile, hprof, hval, rfl, -⟩ := h₁
    exact ⟨fun db₂ hs => .createReference name r hn htarget ⟨profile, hprof, hval⟩
      ((Db.Same.emit ..).trans hs), ⟨2, .emitted (by rfl) (by rfl) 2 ..⟩,
      .references rfl ⟨rfl, rfl, rfl⟩⟩
  · rename_i reference hn
    simp only [block_ok, refuse_ok] at h₁
    obtain ⟨-, -, profile, hprof, hval, rfl, -⟩ := h₁
    obtain ⟨-, rfl⟩ := reference_name hn
    exact ⟨fun db₂ hs => .moveReference reference r hn htarget ⟨profile, hprof, hval⟩
      ((Db.Same.emit ..).trans hs), ⟨2, .emitted (by rfl) (by rfl) 2 ..⟩,
      .references rfl ⟨rfl, rfl, rfl⟩⟩

theorem acquire_did {body : AcquisitionBody} : (Command.acquire body key).Does := by
  intro d env p clock db db' response h
  simp only [Command.run, acquire, block_ok, refuse_ok] at h
  obtain ⟨member, -, -, ⟨db₂, stored⟩, h, id, hid, row, hrow, -, -, rfl, rfl⟩ := h
  refine once_did (Or.inr rfl) rfl h (fun db₁ _ h₁ => ?_) ?_
  · simp only [acquire.acquireOnce, block_ok, refuse_ok, found_ok, not_or, not_not,
      Bool.not_eq_true, List.any_eq_false, decide_eq_true_eq, ne_eq] at h₁
    obtain ⟨-, reference, hn, -, _, -, -, ⟨-, hnodup⟩, profile, hprof, ids, hids, inputs, hinputs,
      hpub, -, _, -, rfl, -⟩ := h₁
    obtain ⟨hmap, hmem⟩ := mapM_record hinputs
    obtain ⟨-, hname⟩ := reference_name hn
    rw [← hname] at hn
    have hf : Frozen d db reference inputs :=
      ⟨hmem, hpub, profile, body.inputRecordIds, hprof, hnodup, by rw [hmap]; exact hids⟩
    exact ⟨fun db₂ hs => .acquire reference p.id _ _ inputs hn hf ((Db.Same.emit ..).trans hs),
      ⟨4, .emitted (by rfl) (by rfl) 4 ..⟩, .references rfl ⟨rfl, rfl, rfl⟩⟩
  · unfold acquisitionId at hid
    split at hid
    · rename_i view hview
      obtain rfl := Except.ok.inj hid
      exact ⟨view, row, hview, found_ok.mp hrow, rfl⟩
    · simp at hid

theorem renew_did {fence : Nat} : (Command.renew id fence).Does := by
  intro d env p clock db db' response h
  simp only [Command.run, renew, block_ok] at h
  obtain ⟨member, -, -, c, hc, reference, href, rfl, -⟩ := h
  exact ⟨.renew c reference _ (checkAttempt_ok (attemptRow_mem hc) href) (Db.Same.refl _),
    .unguarded rfl ((Db.Logged.refl db).beside rfl rfl), .references rfl ⟨rfl, rfl, rfl⟩⟩

theorem abandon_did {fence : Nat} : (Command.abandon id fence).Does := by
  intro d env p clock db db' response h
  simp only [Command.run, abandon, block_ok] at h
  obtain ⟨member, -, -, c, hc, reference, href, rfl, -⟩ := h
  exact ⟨.abandon c reference (checkAttempt_ok (attemptRow_mem hc) href) (Db.Same.emit ..),
    .unguarded rfl (.emitted (by rfl) (by rfl) 2 ..), .references rfl ⟨rfl, rfl, rfl⟩⟩

theorem complete_did {body : CompletionBody} : (Command.complete id body key).Does := by
  intro d env p clock db db' response h
  simp only [Command.run, complete, block_ok] at h
  obtain ⟨member, -, -, c, hc, -, h⟩ := h
  split at h
  · rename_i hdone
    simp only [block_ok, refuse_ok, not_or, not_not] at h
    obtain ⟨⟨hf, hr⟩, rfl, rfl⟩ := h
    exact ⟨.idle (Or.inr rfl) (Db.Same.refl _),
      .settled id body key c rfl (found_ok.mp hc) hdone hf hr, .references rfl ⟨rfl, rfl, rfl⟩⟩
  · refine once_did (Or.inr rfl) rfl h (fun db₁ _ h₁ => ?_) rfl
    simp only [complete.completeOnce, block_ok, refuse_ok, not_not] at h₁
    obtain ⟨reference, href, hg, r, hr, ht, profile, hprof, used, hused, hval, rfl, -⟩ := h₁
    exact ⟨fun db₂ hs => .complete c reference r (checkAttempt_ok (attemptRow_mem hc) href)
      (by simpa using hg)
      (checkTarget_ok (record_mem hr).1 ht) ⟨profile, member, p, used, hprof, hused, hval⟩
      (((Db.Same.emit ..).trans (Db.Same.emit ..)).trans hs),
      ⟨3, (Db.Logged.emitted (by rfl) (by rfl) 2 ..).emit (by decide) ..⟩,
        .references rfl ⟨rfl, rfl, rfl⟩⟩

/-! ### Managed spaces and workloads -/

theorem enableManagedSpace_did {jobId : String} {foreign : Bool} :
    (Command.enableManagedSpace jobId foreign key).Does := by
  intro d env p clock db db' response h
  simp only [Command.run, enableManagedSpace, block_ok] at h
  obtain ⟨-, -, member, -, -, h⟩ := h
  refine once_did (Or.inr rfl) rfl h (fun db₁ _ h₁ => ?_) rfl
  unfold enableManagedSpace.enable at h₁
  split at h₁
  · simp only [block_ok] at h₁
    obtain ⟨-, rfl, -⟩ := h₁
    exact ⟨fun db₂ hs => .idle (Or.inr rfl) hs, ⟨0, .refl db⟩, .managing rfl rfl⟩
  · rename_i hm
    simp only [block_ok] at h₁
    obtain ⟨-, rfl, -⟩ := h₁
    exact ⟨fun db₂ hs => .manage _ hm rfl ((Db.Same.emit ..).trans hs),
      ⟨2, .emitted (by rfl) (by rfl) 2 ..⟩, .managing rfl rfl⟩

/-- The records of a retired space all emit at one reading. -/
theorem releaseAll_logged {db₀ : Db} {n : Nat} (rs : List Record) {k : Nat} {db : Db}
    (h : db₀.Logged clock k db) (hk : k ≤ 1 + n) :
    ∃ k', k' ≤ 1 + n ∧ db₀.Logged clock k' (releaseAll d db rs fun i => clock (i + n)) := by
  induction rs generalizing k db with
  | nil => exact ⟨k, hk, h⟩
  | cons r rs ih =>
    obtain ⟨k₁, hk₁, h₁⟩ := release_logged (d := d) h hk r (stoppedState r)
    exact ih h₁ hk₁

theorem retireManagedSpace_did {jobId : String} : (Command.retireManagedSpace jobId key).Does := by
  intro d env p clock db db' response h
  simp only [Command.run, retireManagedSpace, block_ok] at h
  obtain ⟨-, -, member, -, -, managed, -, -, h⟩ := h
  refine once_did (Or.inl rfl) rfl h (fun db₁ _ h₁ => ?_) rfl
  simp only [retireManagedSpace.retire, block_ok] at h₁
  obtain ⟨-, h₁⟩ := h₁
  split at h₁
  · obtain rfl := fst_ok h₁
    exact ⟨fun db₂ hs => .idle (Or.inl rfl) hs, ⟨0, .refl db⟩, .managing rfl rfl⟩
  · obtain rfl := fst_ok h₁
    have hmanaged : db.Logged clock 0
        { db with managed := some { managed with retiredAt := some (clock 1) } } :=
      (Db.Logged.refl db).beside rfl rfl
    obtain ⟨k, hk, hall⟩ :=
      releaseAll_logged (d := d) (n := 2) db.ledger.records hmanaged (Nat.zero_le _)
    exact ⟨fun db₂ hs => .retire _ _ rfl (((releaseAll_same _ _).trans (Db.Same.emit ..)).trans hs),
      ⟨4, hall.emit (by omega) ..⟩, .managing rfl (releaseAll_same _ _).registry⟩

theorem createWorkloadGrant_did {body : WorkloadGrantBody} :
    (Command.createWorkloadGrant body key).Does := by
  intro d env p clock db db' response h
  simp only [Command.run, createWorkloadGrant, block_ok] at h
  obtain ⟨-, -, member, -, -, h⟩ := h
  refine once_did (Or.inr rfl) rfl h (fun db₁ _ h₁ => ?_) rfl
  simp only [createWorkloadGrant.create, block_ok] at h₁
  obtain ⟨managed, -, -, -, _, -, -, -, -, rfl, -⟩ := h₁
  exact ⟨fun db₂ hs => .idle (Or.inr rfl) ⟨hs.ledger, hs.registry, hs.policies, hs.managed⟩,
    ⟨2, .emitted (by rfl) (by rfl) 2 ..⟩, .managing rfl rfl⟩

theorem revokeWorkloadGrants_did {attemptId : String} :
    (Command.revokeWorkloadGrants attemptId key).Does := by
  intro d env p clock db db' response h
  simp only [Command.run, revokeWorkloadGrants, block_ok] at h
  obtain ⟨-, -, member, -, -, h⟩ := h
  refine once_did (Or.inr rfl) rfl h (fun db₁ _ h₁ => ?_) rfl
  simp only [revokeWorkloadGrants.revoke, pure_ok, Prod.mk.injEq] at h₁
  obtain ⟨rfl, -⟩ := h₁
  exact ⟨fun db₂ hs => .idle (Or.inr rfl) ⟨hs.ledger, hs.registry, hs.policies, hs.managed⟩,
    ⟨2, .emitted (by rfl) (by rfl) 2 ..⟩, .managing rfl rfl⟩

/-! ### Limits, members and types -/

theorem updateSpaceLimits_did {body : LimitsBody} : (Command.updateSpaceLimits body).Does := by
  intro d env p clock db db' response h
  simp only [Command.run, updateSpaceLimits, block_ok, refuse_ok, not_or, Bool.not_eq_true,
    List.any_eq_false, decide_eq_true_eq] at h
  obtain ⟨-, hrange, member, -, -, ⟨hbytes, -, hrecords, hmetadata⟩, rfl, -⟩ := h
  have hbounded : body.quotaBytes.getD db.ledger.space.quotaBytes = db.ledger.space.quotaBytes ∨
      body.quotaBytes.getD db.ledger.space.quotaBytes ≤ maxInt64 := by
    cases hq : body.quotaBytes with
    | none => exact Or.inl rfl
    | some n =>
      have := hrange n (by simp [limitValues, hq])
      right
      simp only [Option.getD_some]
      omega
  exact ⟨.limits (setLimits db.ledger.space body) ⟨rfl, rfl, rfl, rfl, rfl, rfl, limit_ok hbytes,
    limit_ok hrecords, limit_ok hmetadata, hbounded⟩ (Db.Same.emit ..),
    .unguarded rfl (.emitted (by rfl) (by rfl) 1 ..), fun _ => rfl,
    fun _ => ⟨rfl, rfl, rfl⟩⟩

theorem putMember_did {body : MemberBody} : (Command.putMember id body).Does := by
  intro d env p clock db db' response h
  simp only [Command.run, putMember, block_ok] at h
  obtain ⟨caller, -, -, -, -, -, profile, -, -, -, rfl, -⟩ := h
  exact ⟨.idle (Or.inr rfl) ⟨rfl, rfl, rfl, rfl⟩, .unguarded rfl (.emitted (by rfl) (by rfl) 1 ..),
    fun _ => rfl,
    fun _ => ⟨rfl, rfl, rfl⟩⟩

theorem registerType_did {kind : String} {body : TypeBody} :
    (Command.registerType kind body key).Does := by
  intro d env p clock db db' response h
  simp only [Command.run, registerType, block_ok] at h
  obtain ⟨member, -, -, -, -, profile, -, -, roles, -, -, h⟩ := h
  refine once_did (Or.inr rfl) rfl h (fun db₁ _ h₁ => ?_) rfl
  simp only [registerType.create, pure_ok, Prod.mk.injEq] at h₁
  obtain ⟨rfl, -⟩ := h₁
  constructor
  · intro db₂ hs
    refine .register kind roles (body.visibility.getD (profile.policyDefaults kind).2)
      (Db.Same.trans ?_ ((Db.Same.emit ..).trans hs))
    exact addPolicy_same ⟨rfl, rfl, rfl, rfl⟩
  -- The kind has a policy, or gets one.
  · unfold addPolicy
    split_ifs <;> exact ⟨⟨2, .emitted (by rfl) (by rfl) 2 ..⟩, fun _ => rfl,
      fun _ => ⟨rfl, rfl, rfl⟩⟩

theorem putPolicy_did {kind : String} {body : PolicyBody} : (Command.putPolicy kind body).Does := by
  intro d env p clock db db' response h
  simp only [Command.run, putPolicy, block_ok, refuse_ok, found_ok, not_and, Bool.not_eq_true,
    List.any_eq_false] at h
  obtain ⟨member, -, -, roles, -, profile, -, -, policy, hpol, href, rfl, -⟩ := h
  obtain ⟨-, rfl⟩ := Table.get_mem hpol
  refine ⟨.policy policy { policy with
    publishRoles := roles, visibility := body.visibility, generation :=
      policy.generation + 1 } hpol rfl ?_
    (Db.Same.emit ..), .unguarded rfl (.emitted (by rfl) (by rfl) 1 ..), fun _ => rfl,
      fun _ => ⟨rfl, rfl, rfl⟩⟩
  intro hv reference href' r hr
  have := href hv reference href'
  rw [Option.mem_def.mp hr] at this
  simpa using this

end Service

section
variable {d : Dialect} {env : Env} {db db' : Db} {p : Principal} {clock : Clock}
  {response : Response}

/-- **What a command that returned has done.** -/
theorem Command.run_did (c : Command) (h : c.run d env p clock db = .ok (db', response)) :
    c.Did d env p clock db db' response := by
  cases c with
  | createRecord body key => exact Service.createRecord_did h
  | patchRecord id metadata version => exact Service.patchRecord_did h
  | publishRecord id key => exact Service.publishRecord_did h
  | withdrawRecord id => exact Service.withdrawRecord_did h
  | purgeRecord id => exact Service.purgeRecord_did h
  | putReference name id token key => exact Service.putReference_did h
  | acquire body key => exact Service.acquire_did h
  | renew id fence => exact Service.renew_did h
  | abandon id fence => exact Service.abandon_did h
  | complete id body key => exact Service.complete_did h
  | enableManagedSpace job foreign key => exact Service.enableManagedSpace_did h
  | retireManagedSpace job key => exact Service.retireManagedSpace_did h
  | createWorkloadGrant body key => exact Service.createWorkloadGrant_did h
  | revokeWorkloadGrants attempt key => exact Service.revokeWorkloadGrants_did h
  | updateSpaceLimits body => exact Service.updateSpaceLimits_did h
  | putMember id body => exact Service.putMember_did h
  | registerType kind body key => exact Service.registerType_did h
  | putPolicy kind body => exact Service.putPolicy_did h

/-- **Every command that returns has made one of the steps of `Committed`.** -/
theorem Command.run_committed (c : Command) (h : c.run d env p clock db = .ok (db', response)) :
    Service.Committed d db c.deed db' :=
  (c.run_did h).committed

/-- **What a command does to the stored operations and to the log.** -/
theorem Command.run_executed (c : Command) (h : c.run d env p clock db = .ok (db', response)) :
    c.Executed env p clock db db' response :=
  (c.run_did h).executed

end

/-! ### What follows for the two tables -/

/-- A transaction that prunes nothing: operations are kept in their order, and events written. -/
structure Db.Recorded (clock : Clock) (db db' : Db) : Prop where
  operations : db.operations <+: db'.operations
  events : ∃ k, Journal.Written Event.id Event.createdAt clock db.journal k db'.journal

theorem Db.Recorded.refl (clock : Clock) (db : Db) : db.Recorded clock db :=
  ⟨List.prefix_rfl, 0, .same⟩

variable {clock : Clock} {db db' : Db} {env : Env} {ids : List Nat}

theorem Command.Executed.recorded {p : Principal} {c : Command}
    {response : Response} (h : c.Executed env p clock db db' response) : db.Recorded clock db' := by
  cases h with
  | unguarded _ h => exact ⟨h.operations ▸ List.prefix_rfl, _, h.events⟩
  | settled id body key row _ _ _ _ _ | replayed _ _ _ _ => exact .refl clock db
  | first _ _ hl h _ =>
    rw [h]
    exact ⟨hl.operations ▸ List.prefix_append _ _, _, hl.events⟩

/-- What a transaction does to the two tables, and which events retention removes. -/
inductive Db.Maintained (clock : Clock) (db : Db) : List Nat → Db → Prop
  | recorded {db' : Db} (h : db.Recorded clock db') : Maintained clock db [] db'
  | pruned {db' : Db} (keep : Operation → Bool) (ho : db'.operations = db.operations.filter keep)
    (hj : db'.journal = db.journal) : Maintained clock db [] db'
  | prunedEvents (ids : List Nat) : Maintained clock db ids (Attempts.pruneEvents ids db)

theorem Db.Emitted.logged {k : Nat} (h : Db.Emitted clock db k db') : db.Logged clock k db' := by
  induction h with
  | none => exact .refl db
  | more _ hik type principalId recordId payload ih => exact ih.emit hik ..

theorem Transferred.registry (ht : Transferred clock db ids db') : db'.registry = db.registry := by
  cases ht with
  | wrote l _ he => exact he.same.registry
  | pruned keep l _ | prunedEvents ids => rfl

theorem Transferred.maintained (ht : Transferred clock db ids db') :
    db.Maintained clock ids db' := by
  cases ht with
  | @wrote l k db' hl he =>
    have hlog := he.logged
    have hfloor : ({ db with ledger := l } : Db).journal = db.journal := by
      unfold Db.journal
      rw [hl.space]
    exact .recorded ⟨hlog.operations ▸ List.prefix_rfl, k, hfloor ▸ hlog.events⟩
  | pruned keep l hl =>
    refine .pruned keep rfl ?_
    unfold Db.journal
    rw [hl.space]
  | prunedEvents ids => exact .prunedEvents ids

/-! ### Steps of a service -/

/-- One step of a service: a transaction that fails and rolls back, a command, or a transaction of a
transfer. -/
inductive Stepped (d : Dialect) (env : Env) (clock : Clock) (db : Db) :
    Option (Principal × Command) → List Nat → Db → Prop
  | failed (call : Option (Principal × Command)) (ids : List Nat)
    (h : ∀ p c, call = some (p, c) → ∃ e, c.run d env p clock db = .error e) :
    Stepped d env clock db call ids db
  | command (p : Principal) (c : Command) (ids : List Nat) {db' : Db} {response : Response}
    (h : c.run d env p clock db = .ok (db', response)) :
    Stepped d env clock db (some (p, c)) ids db'
  | transfer {ids : List Nat} {db' : Db} (h : Transferred clock db ids db') :
    Stepped d env clock db none ids db'

/-- A step that rolls back if its transaction fails. -/
theorem Stepped.of_run {d : Dialect} {call : Option (Principal × Command)} {run : Except Error Db} :
    (∀ p c, call = some (p, c) → run = (c.run d env p clock db).map (·.1)) →
    (call = none → ∀ db', run = .ok db' → Transferred clock db ids db') →
    Stepped d env clock db call ids (match run with | .ok db' => db' | .error _ => db) := by
  intro hcommand htransfer
  cases call with
  | none =>
    cases hrun : run with
    | ok db' => exact .transfer (htransfer rfl db' hrun)
    | error e => exact .failed _ _ nofun
  | some pc =>
    rw [hcommand pc.1 pc.2 rfl]
    cases hrun : pc.2.run d env pc.1 clock db with
    | ok r => exact .command pc.1 pc.2 _ hrun
    | error e =>
      refine .failed _ _ fun p c he => ?_
      cases he
      exact ⟨e, hrun⟩

theorem Stepped.maintained {d : Dialect} {call : Option (Principal × Command)}
    (h : Stepped d env clock db call ids db') :
    ∃ removed, (ids = [] → removed = []) ∧ db.Maintained clock removed db' := by
  cases h with
  | failed _ _ _ => exact ⟨[], fun _ => rfl, .recorded (.refl clock db)⟩
  | command p c _ h => exact ⟨[], fun _ => rfl, .recorded (c.run_executed h).recorded⟩
  | transfer h => exact ⟨ids, id, h.maintained⟩

end Hf2l.Exchange
