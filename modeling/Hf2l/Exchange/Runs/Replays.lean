import Hf2l.Exchange.Registry.Fencing
import Hf2l.Exchange.Go.Effects
import Hf2l.Exchange.Python.Effects
import Hf2l.Exchange.Service.Replays

/-!
# `Hf2l.Exchange.Runs.Replays`: commands sent again along the runs of the two services

A command that succeeded is sent again after any other transactions. As long as no operation is
pruned, it writes nothing: it fails, or answers what it answered before. A request with another
body under the same key fails. What happened in between does not matter: the caller may have lost
its roles, the record may be purged, the reference may have moved.
-/

set_option autoImplicit false

namespace Hf2l.Exchange

open Lib Lib.Checked

/-! ### One transaction -/

/-- What every run keeps, so that replays are recognised. -/
structure Db.Replayable (db : Db) : Prop where
  enrolled : db.Enrolled
  settled : db.Settled

/-- What one transaction does to what replays read. -/
structure Db.Remembers (db db' : Db) : Prop where
  replayable : db'.Replayable
  /-- Completed acquisitions stay as they are. -/
  completed : ∀ id row, db.coordination id = some row → row.state = .completed →
    db'.coordination id = some row

variable {db db' : Db} {clock : Clock} {ids : List Nat}

/-- A row of the next state that was there before is found again. -/
theorem Db.Indexed.coordination_eq (hi : db.Indexed) {row : Coordination}
    (h : row ∈ db.registry.coordinations) :
    db.coordination row.id = some row :=
  hi.coordinations.get_eq h

/-- Completions stay, and the operations that are new are settled. -/
theorem Db.Replayable.remembers (h : db.Replayable) (he : db'.Enrolled)
    (hstay : ∀ id row, db.coordination id = some row → row.state = .completed →
      db'.coordination id = some row)
    (hnew : ∀ o ∈ db'.operations, o ∈ db.operations ∨ ∀ id, o.scope = "acquisition.complete:" ++
      id → ∃ row, db'.coordination id = some row ∧ row.state = .completed) :
    db.Remembers db' := by
  refine ⟨⟨he, fun o ho id hscope => ?_⟩, hstay⟩
  rcases hnew o ho with ho | hnew
  · obtain ⟨row, hrow, hdone⟩ := h.settled o ho id hscope
    exact ⟨row, hstay id row hrow hdone, hdone⟩
  · exact hnew id hscope

theorem Command.run_remembers {d : Dialect} {env : Env} {p : Principal} {response : Response}
    (h : db.Replayable) (he : db'.Enrolled) (c : Command)
    (hrun : c.run d env p clock db = .ok (db', response)) :
    db.Remembers db' := by
  refine h.remembers he (fun id row hrow hdone => ?_) fun o ho => ?_
  · obtain ⟨hmem, rfl⟩ := Table.get_mem hrow
    exact he.indexed.coordination_eq
      ((c.run_committed hrun).completed_mem h.enrolled.indexed hmem hdone)
  cases c.run_executed hrun with
  | unguarded _ hl => exact .inl (hl.operations ▸ ho)
  | settled _ _ _ _ _ _ _ _ _ | replayed _ _ _ _ => exact .inl ho
  | first hg _ hl hdb _ =>
    rw [hdb] at ho
    rcases List.mem_append.mp ho with ho | ho
    · exact .inl (hl.operations ▸ ho)
    · -- The operation is of this command, which then is a completion.
      refine .inr fun id hscope => ?_
      obtain rfl := List.mem_singleton.mp ho
      obtain ⟨body, key, rfl⟩ := Command.guard_complete hg hscope
      obtain ⟨row, hrow⟩ := Service.complete_completedAs h.enrolled.indexed h.settled hrun
      exact ⟨row, hrow.found, hrow.done⟩

theorem Transferred.remembers (h : db.Replayable) (he : db'.Enrolled)
    (ht : Transferred clock db ids db') : db.Remembers db' := by
  refine h.remembers he (fun id row hrow _ => ?_) fun o ho => .inl ?_
  · unfold Db.coordination
    rw [ht.registry]
    exact hrow
  cases ht with
  | @wrote l k db' hl hemit => exact hemit.logged.operations ▸ ho
  | pruned keep l _ => exact List.mem_of_mem_filter ho
  | prunedEvents ids => exact ho

theorem Stepped.remembers {d : Dialect} {env : Env} {call : Option (Principal × Command)}
    (h : Stepped d env clock db call ids db') (hr : db.Replayable) (he : db'.Enrolled) :
    db.Remembers db' := by
  cases h with
  | failed _ _ _ => exact ⟨hr, fun _ _ hrow _ => hrow⟩
  | command p c _ h => exact c.run_remembers hr he h
  | transfer h => exact h.remembers hr he

/-- Operations are only appended, unless some are pruned. -/
theorem Db.Maintained.appends (h : db.Maintained clock ids db')
    (hall : ∀ o ∈ db.operations, o ∈ db'.operations) : db.operations <+: db'.operations := by
  cases h with
  | recorded h => exact h.operations
  | pruned keep ho _ =>
    have hsame : db.operations.filter keep = db.operations :=
      List.filter_eq_self.mpr fun o hmem => (List.mem_filter.mp (ho ▸ hall o hmem)).2
    exact (ho.trans hsame) ▸ List.prefix_rfl
  | prunedEvents ids => exact List.prefix_rfl

/-! ### Runs -/

section Runs

variable {τ : Type} (d : Dialect) (env : Env) (step : Db → τ → Db)

/-- No operation is pruned. -/
def Unpruned (db : Db) (tx : τ) : Prop := ∀ o ∈ db.operations, o ∈ (step db tx).operations

/-- What a command that answered `response` answers when it is sent again. -/
def Command.Replies (c : Command) (db : Db) (response again : Response) : Prop :=
  match c with
  | .acquire _ _ => ∃ view row, response = .acquisition view ∧ db.coordination view.id = some row ∧
      again = .acquisition (Service.acquisitionDict db row)
  | .complete id _ _ => ∃ row, db.coordination id = some row ∧ row.state = .completed ∧
      again = .acquisition (Service.acquisitionDict db row)
  | _ => again = response

/-- The request when it is sent again. Whether another space has the job is not part of it, and may
have changed. -/
def Command.again (foreign : Bool) : Command → Command
  | .enableManagedSpace jobId _ key => .enableManagedSpace jobId foreign key
  | c => c

/-- Commands are idempotent along the runs from `db`. -/
structure ReplaySafe (db : Db) : Prop where
  /-- The same request again: nothing is written. -/
  same : ∀ (before after : List τ) (p : Principal) (c : Command) (clock : Clock) (first : Db)
    (response : Response),
    c.guard ≠ none → c.run d env p clock (before.foldl step db) = .ok (first, response) →
    Run.Every step (Unpruned step) first after →
      ∀ (foreign : Bool) (clock' : Clock) (last : Db) (again : Response),
      (c.again foreign).run d env p clock' (after.foldl step first) = .ok (last, again) →
      last = after.foldl step first ∧ c.Replies (after.foldl step first) response again
  /-- Another body under the same key: it is refused. -/
  other : ∀ (before after : List τ) (p : Principal) (c c' : Command) (g g' : Guard) (clock : Clock)
    (first : Db) (response : Response), c.guard = some g →
    c.run d env p clock (before.foldl step db) = .ok (first, response) →
    Run.Every step (Unpruned step) first after → c'.guard = some g' → g'.scope = g.scope →
    g'.key = g.key → env.digest g'.request ≠ env.digest g.request →
    ∀ clock' : Clock, ∃ e, c'.run d env p clock' (after.foldl step first) = .error e

variable {d env step}

/-- What holds after the first execution, and as long as operations are kept. -/
structure Command.Held (c : Command) (env : Env) (p : Principal) (response : Response) (db : Db) :
    Prop where
  replayable : db.Replayable
  /-- A completion is in its row, and the other commands have stored their operation. -/
  kept : (∃ id body key row, c = .complete id body key ∧ db.CompletedAs id body row) ∨
    (∀ id body key, c ≠ .complete id body key) ∧ ∃ stored, c.Stores env p db stored ∧
      (match c with
        | .acquire _ _ =>
          ∃ view view', stored = .acquisition view ∧ response = .acquisition view' ∧
            view.id = view'.id
        | _ => response = stored)

variable {c : Command} {clock : Clock} {db db' : Db} {p : Principal} {response : Response}
  {body : SpaceBody} {bootstrap : Bool} {key spaceId : String}

theorem Command.not_settles (h : ∀ id body key, c ≠ .complete id body key) (db : Db) :
    ¬ c.Settles db := by
  rintro ⟨id, body, key, -, rfl, -⟩
  exact h id body key rfl

/-- The first execution. -/
theorem Command.held_first (h : db.Replayable) (h' : db'.Replayable) (hg : c.guard ≠ none)
    (hrun : c.run d env p clock db = .ok (db', response)) : c.Held env p response db' := by
  refine ⟨h', ?_⟩
  by_cases hc : ∃ id body key, c = .complete id body key
  · obtain ⟨id, body, key, rfl⟩ := hc
    obtain ⟨row, hrow⟩ := Service.complete_completedAs h.enrolled.indexed h.settled hrun
    exact Or.inl ⟨id, body, key, row, rfl, hrow⟩
  · have hne : ∀ id body key, c ≠ .complete id body key :=
      fun id body key he => hc ⟨id, body, key, he⟩
    obtain ⟨stored, hst, ha⟩ := (c.run_executed hrun).stores hg (Command.not_settles hne db)
    refine Or.inr ⟨hne, stored, hst, ?_⟩
    cases c with
    | acquire body key =>
      obtain ⟨view, row, hview, hrow, hresponse⟩ := ha
      exact ⟨view, Service.acquisitionDict db' row, hview, hresponse, (Table.get_mem hrow).2.symm⟩
    | _ => exact ha

/-- The operation stays, and so does a completed acquisition. -/
theorem Command.Held.next (h : c.Held env p response db)
    (hr : db.Remembers db') (hkeep : db.operations <+: db'.operations) :
    c.Held env p response db' := by
  refine ⟨hr.replayable, ?_⟩
  rcases h.kept with ⟨id, body, key, row, hc, has⟩ |
    ⟨hne, stored, ⟨g, o, hg, ho, hh, hs⟩, hresponse⟩
  · exact Or.inl ⟨id, body, key, row, hc, hr.completed id row has.found has.done, has.done,
      has.fence, has.result⟩
  · exact Or.inr ⟨hne, stored, ⟨g, o, hg, Db.operation_prefix hkeep ho, hh, hs⟩, hresponse⟩

/-- The same request again. -/
theorem Command.Held.replay {again : Response} (h : c.Held env p response db) {foreign : Bool}
    (hrun : (c.again foreign).run d env p clock db = .ok (db', again)) :
    db' = db ∧ c.Replies db response again := by
  rcases h.kept with ⟨id, body, key, row, rfl, has⟩ | ⟨hne, stored, hst, hresponse⟩
  · obtain ⟨hdb, hagain, -⟩ := Service.complete_settled has.found has.done hrun
    exact ⟨hdb, row, has.found, has.done, hagain⟩
  · have hst' : (c.again foreign).Stores env p db stored := by
      cases c <;> exact hst
    have hne' : ∀ id body key, c.again foreign ≠ .complete id body key := by
      intro id body key he
      cases c with
      | enableManagedSpace jobId foreign' key => simp [Command.again] at he
      | _ => exact hne id body key he
    obtain ⟨hdb, ha⟩ :=
      ((c.again foreign).run_executed hrun).replay hst' (Command.not_settles hne' db)
    refine ⟨hdb, ?_⟩
    cases c with
    | acquire body key =>
      obtain ⟨view, view', rfl, rfl, hid⟩ := hresponse
      obtain ⟨v, row, hv, hrow, hagain⟩ := ha
      obtain rfl := Response.acquisition.inj hv
      exact ⟨view', row, rfl, hid ▸ hrow, hagain⟩
    | complete id body key => exact absurd rfl (hne id body key)
    | _ => exact Eq.trans ha hresponse.symm

/-- Another body under the same key. -/
theorem Command.Held.refuses {c' : Command} {g g' : Guard} (h : c.Held env p response db)
    (hg : c.guard = some g) (hg' : c'.guard = some g') (hscope : g'.scope = g.scope)
    (hkey : g'.key = g.key) (hd : env.digest g'.request ≠ env.digest g.request) (clock : Clock) :
    ∃ e, c'.run d env p clock db = .error e := by
  cases hrun : c'.run d env p clock db with
  | error e => exact ⟨e, rfl⟩
  | ok r =>
    exfalso
    obtain ⟨db', again⟩ := r
    rcases h.kept with ⟨id, body, key, row, rfl, has⟩ | ⟨hne, stored, hst, -⟩
    · -- The other request is a completion of the same acquisition, and differs from the row.
      obtain rfl := Option.some.inj hg
      obtain ⟨body', key', rfl⟩ := Command.guard_complete hg' hscope
      obtain rfl := Option.some.inj hg'
      obtain ⟨-, -, has'⟩ := Service.complete_settled has.found has.done hrun
      have hbody : body' = body := by
        have hf := has'.fence.symm.trans has.fence
        have hr := Option.some.inj (has'.result.symm.trans has.result)
        cases body
        cases body'
        simp_all
      exact hd (by rw [hbody])
    · -- A completion has a scope of its own, so this is none.
      have hne' : ∀ id body key, c' ≠ .complete id body key := by
        rintro id body key rfl
        obtain rfl := Option.some.inj hg'
        obtain ⟨body', key', rfl⟩ := Command.guard_complete hg hscope.symm
        exact hne id body' key' rfl
      exact (c'.run_executed hrun).conflict hst hg hg' hscope hkey hd (Command.not_settles hne' db)

/-- **A system whose transactions remember replays is idempotent.** -/
theorem replaySafe_of_remembers
    (hstep : ∀ (db : Db) (tx : τ), db.Replayable → db.Remembers (step db tx))
    (happend : ∀ (db : Db) (tx : τ), Unpruned step db tx →
      db.operations <+: (step db tx).operations)
    (hcommand : ∀ (p : Principal) (c : Command) (clock : Clock) (db db' : Db) (response : Response),
      c.run d env p clock db = .ok (db', response) → ∃ tx, step db tx = db')
    (h : db.Replayable) :
    ReplaySafe d env step db := by
  have hheld : ∀ (before after : List τ) (p : Principal) (c : Command) (clock : Clock) (first : Db)
      (response : Response),
      c.guard ≠ none → c.run d env p clock (before.foldl step db) = .ok (first, response) →
      Run.Every step (Unpruned step) first after →
        c.Held env p response (after.foldl step first) := by
    intro before after p c clock first response hg hrun hafter
    have hbefore : (before.foldl step db).Replayable :=
      Run.invariant (fun db tx hdb => (hstep db tx hdb).replayable) h before
    obtain ⟨tx, htx⟩ := hcommand p c clock _ first response hrun
    have hfirst : first.Replayable := htx ▸ (hstep _ tx hbefore).replayable
    exact Run.keeps (C := Unpruned step)
      (fun db tx hdb hkeep => hdb.next (hstep db tx hdb.replayable) (happend db tx hkeep))
      (Command.held_first hbefore hfirst hg hrun) hafter
  constructor
  · intro before after p c clock first response hg hrun hafter foreign clock' last again hagain
    exact (hheld before after p c clock first response hg hrun hafter).replay hagain
  · intro before after p c c' g g' clock first response hg hrun hafter hg' hscope hkey hd clock'
    exact (hheld before after p c clock first response (by simp [hg]) hrun hafter).refuses hg hg'
      hscope hkey hd clock'

/-! ### New spaces -/

variable (d env step) in
/-- The creation of a space is idempotent, and so are the commands in it. -/
structure CreationSafe : Prop where
  commands : ∀ (p : Principal) (bootstrap : Bool) (body : SpaceBody) (key spaceId : String)
    (clock : Clock) (db : Db) (response : Response),
    Service.createSpace d env p bootstrap body key spaceId clock none = .ok (db, response) →
    ReplaySafe d env step db
  same : ∀ (p : Principal) (bootstrap bootstrap' : Bool) (body : SpaceBody) (key spaceId : String)
    (clock : Clock) (existing : Option Db) (first : Db) (response : Response) (after : List τ),
    Service.createSpace d env p bootstrap body key spaceId clock existing = .ok (first, response) →
    Run.Every step (Unpruned step) first after → ∀ (clock' : Clock) (last : Db) (again : Response),
      Service.createSpace d env p bootstrap' body key spaceId clock'
        (some (after.foldl step first)) = .ok (last, again) →
      last = after.foldl step first ∧ again = response
  other : ∀ (p : Principal) (bootstrap bootstrap' : Bool) (body body' : SpaceBody)
    (key spaceId : String) (clock : Clock) (existing : Option Db) (first : Db)
    (response : Response) (after : List τ),
    Service.createSpace d env p bootstrap body key spaceId clock existing = .ok (first, response) →
    Run.Every step (Unpruned step) first after →
      env.digest (.space body') ≠ env.digest (.space body) →
    ∀ clock' : Clock, ∃ e,
      Service.createSpace d env p bootstrap' body' key spaceId clock'
        (some (after.foldl step first)) = .error e

/-- The rows of the space are those there are, or new ones, and `once` guards the response. -/
theorem Service.createSpace_ok {existing : Option Db}
    (h : createSpace d env p bootstrap body key spaceId clock existing = .ok (db', response)) :
    ∃ db, (existing = some db ∨ existing = none ∧
        ∃ limits, db = Db.created spaceId body.profile limits p (clock 0)) ∧
      once env db p "space.create" key (.space body) (clock 1) (.ok (db, .space db.ledger.space)) =
        .ok (db', response) := by
  cases existing with
  | some db₀ =>
    simp only [createSpace, block_ok, Except.ok.injEq] at h
    obtain ⟨-, -, -, _, -, -, db, rfl, _, -, -, h⟩ := h
    exact ⟨db₀, Or.inl rfl, h⟩
  | none =>
    simp only [createSpace, block_ok, map_ok] at h
    obtain ⟨-, -, -, _, -, -, db, ⟨limits, -, rfl⟩, _, -, -, h⟩ := h
    exact ⟨_, Or.inr ⟨rfl, limits, rfl⟩, h⟩

/-- After the creation its operation is stored. -/
theorem Service.createSpace_stored {existing : Option Db}
    (h : createSpace d env p bootstrap body key spaceId clock existing = .ok (db', response)) :
    ∃ o, db'.operation p.id "space.create" key = some o ∧ o.requestHash = env.digest (.space body) ∧
      o.response = response := by
  obtain ⟨db, -, h⟩ := createSpace_ok h
  rcases once_cases h with ⟨o, ho, hh, rfl, rfl⟩ | ⟨ho, db₁, h₁, rfl⟩
  · exact ⟨o, ho, hh, rfl⟩
  · simp only [Except.ok.injEq, Prod.mk.injEq] at h₁
    exact ⟨_, Db.operation_stored _ _ _ ho (by rw [h₁.1]), rfl, rfl⟩

/-- A new space holds nothing but its creation. -/
theorem Service.createSpace_replayable
    (h : createSpace d env p bootstrap body key spaceId clock none = .ok (db', response)) :
    db'.Replayable := by
  obtain ⟨db, hdb, h⟩ := createSpace_ok h
  obtain ⟨-, limits, rfl⟩ := hdb.resolve_left (by simp)
  have hcreated := Db.created_enrolled spaceId body.profile limits p (clock 0)
  rcases once_cases h with ⟨o, ho, -⟩ | ⟨-, db₁, h₁, rfl⟩
  · simp [Db.operation, Db.created] at ho
  · obtain rfl := fst_ok h₁
    refine ⟨⟨hcreated.sound,
      ⟨hcreated.indexed.references, hcreated.indexed.coordinations, hcreated.indexed.minted⟩,
      hcreated.fenced⟩, fun o ho id hscope => ?_⟩
    -- The one operation has the scope of a creation.
    have ho : o = ⟨p.id, "space.create", key, env.digest (.space body), response, clock 1⟩ := by
      simpa [Db.created] using ho
    have hfirst := congrArg (fun s : String => s.toList[0]?) hscope
    simp [ho, String.toList_append] at hfirst

theorem creationSafe_of_remembers
    (hstep : ∀ (db : Db) (tx : τ), db.Replayable → db.Remembers (step db tx))
    (happend : ∀ (db : Db) (tx : τ), Unpruned step db tx →
      db.operations <+: (step db tx).operations)
    (hcommand : ∀ (p : Principal) (c : Command) (clock : Clock) (db db' : Db) (response : Response),
      c.run d env p clock db = .ok (db', response) → ∃ tx, step db tx = db') :
    CreationSafe d env step := by
  have hheld : ∀ {first : Db} {after : List τ} {p : Principal} {key : String} {o : Operation},
      first.operation p.id "space.create" key = some o →
        Run.Every step (Unpruned step) first after →
      (after.foldl step first).operation p.id "space.create" key = some o := by
    intro first after p key o ho hafter
    exact Run.keeps (P := fun db => db.operation p.id "space.create" key = some o)
      (C := Unpruned step)
      (fun db tx hdb hkeep => Db.operation_prefix (happend db tx hkeep) hdb) ho hafter
  refine ⟨fun p bootstrap body key spaceId clock db response h => ?_, ?_, ?_⟩
  · exact replaySafe_of_remembers hstep happend hcommand (Service.createSpace_replayable h)
  · intro p bootstrap bootstrap' body key spaceId clock existing first response after h hafter
      clock' last again hagain
    obtain ⟨o, ho, -, hresponse⟩ := Service.createSpace_stored h
    have ho' := hheld ho hafter
    obtain ⟨db, hdb, hagain⟩ := Service.createSpace_ok hagain
    obtain rfl := Option.some.inj (hdb.resolve_right (by simp))
    rcases Service.once_cases hagain with ⟨o', ho'', -, hlast, hr⟩ | ⟨hnone, -⟩
    · obtain rfl := Option.some.inj (ho'.symm.trans ho'')
      exact ⟨hlast, hr.trans hresponse⟩
    · simp [ho'] at hnone
  · intro p bootstrap bootstrap' body body' key spaceId clock existing first response after h hafter
      hd clock'
    obtain ⟨o, ho, hh, -⟩ := Service.createSpace_stored h
    have ho' := hheld ho hafter
    cases hrun : Service.createSpace d env p bootstrap' body' key spaceId clock'
      (some (after.foldl step first)) with
    | error e => exact ⟨e, rfl⟩
    | ok r =>
      exfalso
      obtain ⟨db, hdb, hagain⟩ := Service.createSpace_ok hrun
      obtain rfl := Option.some.inj (hdb.resolve_right (by simp))
      rcases Service.once_cases hagain with ⟨o', ho'', hh', -⟩ | ⟨hnone, -⟩
      · obtain rfl := Option.some.inj (ho'.symm.trans ho'')
        exact hd (hh'.symm.trans hh)
      · simp [ho'] at hnone

end Runs

/-! ### The two services -/

namespace Python

theorem step_remembers (env : Env) (db : Db) (tx : Tx × Clock) (h : db.Replayable) :
    db.Remembers (step env db tx) :=
  (step_stepped env db tx).remembers h (step_swap env db tx h.enrolled).2

theorem step_appends (env : Env) (db : Db) (tx : Tx × Clock) (h : Unpruned (step env) db tx) :
    db.operations <+: (step env db tx).operations := by
  obtain ⟨ids, -, hm⟩ := (step_stepped env db tx).maintained
  exact hm.appends h

theorem step_command (env : Env) (p : Principal) (c : Command) (clock : Clock) (db db' : Db)
    (response : Response) (h : c.run dialect env p clock db = .ok (db', response)) :
    ∃ tx, step env db tx = db' :=
  ⟨(.command p c, clock), by simp [step, Tx.run, h, Except.map]⟩

end Python

namespace Go

theorem step_remembers (env : Env) (db : Db) (tx : Tx × Clock) (h : db.Replayable) :
    db.Remembers (step env db tx) :=
  (step_stepped env db tx).remembers h (step_swap env db tx h.enrolled).2

theorem step_appends (env : Env) (db : Db) (tx : Tx × Clock) (h : Unpruned (step env) db tx) :
    db.operations <+: (step env db tx).operations := by
  obtain ⟨ids, -, hm⟩ := (step_stepped env db tx).maintained
  exact hm.appends h

theorem step_command (env : Env) (p : Principal) (c : Command) (clock : Clock) (db db' : Db)
    (response : Response) (h : c.run dialect env p clock db = .ok (db', response)) :
    ∃ tx, step env db tx = db' :=
  ⟨(.command p c, clock), by simp [step, Tx.run, h, Except.map]⟩

end Go

/-- **Guarded commands are idempotent, in both services.** After the first execution and any
other transactions that prune no operation, the same request writes nothing, and fails or answers
what it answered; another body under the same key fails. -/
theorem commands_idempotent (env : Env) :
    CreationSafe Python.dialect env (Python.step env) ∧ CreationSafe Go.dialect env (Go.step env) :=
  ⟨creationSafe_of_remembers (Python.step_remembers env) (Python.step_appends env)
      (Python.step_command env),
    creationSafe_of_remembers (Go.step_remembers env) (Go.step_appends env) (Go.step_command env)⟩

end Hf2l.Exchange
