import Hf2l.Exchange.Registry.Registers
import Hf2l.Exchange.Service.Log
import Hf2l.Lib.Run

/-!
# `Hf2l.Exchange.Registry.Swaps`: what runs do to references

`Command.label` says which commands are effective: a `put_reference`, `acquire` or `complete`
that finds the operation of its key is a replay, and so is a `complete` of an acquisition that
is completed. A command that succeeds does to the tables what its label says
(`Command.run_swap`).

`Fencing` is what follows for the rows along a run of a system whose transactions have labels:
the generation and the fence of a reference count its moves and its acquisitions (`Swapped`),
acquisitions are told apart by their fences (`Apart`), and a completed acquisition replaces the
target it was granted at.
-/

set_option autoImplicit false

namespace Hf2l.Exchange

open Lib Lib.Checked Lib.Register

/-- What the command is for the references, if it succeeds. -/
def Command.label (p : Principal) (db : Db) : Command → Label String Id
  | .putReference name _ _ key =>
    if (db.operation p.id ("reference.put:" ++ name) key).isSome then .stay else .write name
  | .acquire body key =>
    if (db.operation p.id "acquisition.create" key).isSome then .stay
    else .issue body.reference (db.ledger.fresh 0)
  | .abandon id _ => .close id
  | .complete id _ key =>
    if (db.coordination id).any (·.state = .completed) then .stay
    else if (db.operation p.id ("acquisition.complete:" ++ id) key).isSome then .stay
    else .use id
  | _ => .stay

namespace Service

variable {d : Dialect} {env : Env} {db db' : Db} {p : Principal} {clock : Clock}
  {response : Response}

/-! ### The commands that write references -/

variable {id : Id} {key : String}

theorem putReference_swap {name : String} {token : String}
    (h : putReference d env p name id token key clock db = .ok (db', response)) :
    Swap db db' ((Command.putReference name id token key).label p db) := by
  simp only [putReference, block_ok] at h
  obtain ⟨-, member, -, -, h⟩ := h
  rcases once_cases h with ⟨o, ho, -, rfl, -⟩ | ⟨ho, db₁, h₁, rfl⟩
  · simp only [Command.label, ho, Option.isSome_some, if_true]
    exact .stay rfl
  · simp only [Command.label, ho, Option.isSome_none, Bool.false_eq_true, if_false]
    simp only [putReference.put, block_ok] at h₁
    obtain ⟨r, -, -, h₁⟩ := h₁
    split at h₁
    · rename_i hn
      simp only [block_ok] at h₁
      obtain ⟨-, -, _, -, -, rfl, -⟩ := h₁
      exact .create name r.id hn rfl
    · rename_i reference hn
      simp only [block_ok] at h₁
      obtain ⟨-, -, _, -, -, rfl, -⟩ := h₁
      obtain ⟨-, rfl⟩ := reference_name hn
      exact .move reference r.id hn rfl

theorem acquire_swap {body : AcquisitionBody}
    (h : acquire d env p body key clock db = .ok (db', response)) :
    Swap db db' ((Command.acquire body key).label p db) := by
  simp only [acquire, block_ok] at h
  obtain ⟨member, -, -, ⟨db₂, _⟩, h, _, -, _, -, -, -, rfl, -⟩ := h
  rcases once_cases h with ⟨o, ho, -, rfl, -⟩ | ⟨ho, db₁, h₁, rfl⟩
  · simp only [Command.label, ho, Option.isSome_some, if_true]
    exact .stay rfl
  · simp only [Command.label, ho, Option.isSome_none, Bool.false_eq_true, if_false]
    simp only [acquire.acquireOnce, block_ok, found_ok] at h₁
    obtain ⟨-, reference, hn, -, _, -, -, -, _, -, _, -, inputs, -, -, -, _, -, rfl, -⟩ := h₁
    obtain ⟨-, hname⟩ := reference_name hn
    rw [← hname] at hn ⊢
    exact .grant reference p.id _ _ (inputs.map (·.id)) hn (Nat.lt_succ_self _) rfl

/-- An acquisition that a command reads. -/
theorem attemptRow_ok {c : Coordination} (h : attemptRow db id = .ok c) :
    c.id = id ∧ db.coordination c.id = some c := by
  have hget := found_ok.mp h
  obtain ⟨-, he⟩ := Table.get_mem hget
  exact ⟨he, by rw [he]; exact hget⟩

theorem renew_swap {fence : Nat} (h : renew env p id fence clock db = .ok (db', response)) :
    Swap db db' .stay := by
  simp only [renew, block_ok] at h
  obtain ⟨_, -, -, c, hc, _, -, rfl, -⟩ := h
  exact .renew c _ (attemptRow_ok hc).2 rfl

theorem abandon_swap {fence : Nat} (h : abandon env p id fence clock db = .ok (db', response)) :
    Swap db db' (.close id) := by
  simp only [abandon, block_ok] at h
  obtain ⟨_, -, -, c, hc, _, -, rfl, -⟩ := h
  obtain ⟨rfl, hget⟩ := attemptRow_ok hc
  exact .abandon c hget rfl

theorem complete_swap {body : CompletionBody}
    (h : complete d env p id body key clock db = .ok (db', response)) :
    Swap db db' ((Command.complete id body key).label p db) := by
  simp only [complete, block_ok] at h
  obtain ⟨member, -, -, c, hc, -, h⟩ := h
  have hget : db.coordination id = some c := found_ok.mp hc
  split at h
  · rename_i hdone
    simp only [block_ok] at h
    simp only [Command.label, hget, Option.any_some, hdone, decide_true, if_true]
    exact .stay (congrArg Db.registry h.2.1.symm)
  · rename_i hdone
    rcases once_cases h with ⟨o, ho, -, rfl, -⟩ | ⟨ho, db₁, h₁, rfl⟩
    · simp only [Command.label, hget, Option.any_some, hdone, decide_false, Bool.false_eq_true,
        if_false, ho, Option.isSome_some, if_true]
      exact .stay rfl
    · simp only [Command.label, hget, Option.any_some, hdone, decide_false, Bool.false_eq_true,
        if_false, ho, Option.isSome_none]
      simp only [complete.completeOnce, block_ok, refuse_ok, not_not] at h₁
      obtain ⟨reference, href, hg, r, -, -, _, -, _, -, -, rfl, -⟩ := h₁
      obtain ⟨rfl, hget'⟩ := attemptRow_ok hc
      exact .complete c reference r.id hget' (checkAttempt_ok (attemptRow_mem hc) href).found
        (by simpa using hg) rfl

end Service

variable {clock : Clock} {d : Dialect} {db : Db} {env : Env} {p : Principal}

/-- **A command that succeeds does to the references what its label says.** -/
theorem Command.run_swap {db' : Db}
    {response : Response} (c : Command) (h : c.run d env p clock db = .ok (db', response)) :
    Swap db db' (c.label p db) := by
  cases c with
  | putReference name id token key => exact Service.putReference_swap h
  | acquire body key => exact Service.acquire_swap h
  | renew id fence => exact Service.renew_swap h
  | abandon id fence => exact Service.abandon_swap h
  | complete id body key => exact Service.complete_swap h
  | _ => exact .stay ((Command.run_did _ h).beside.registry rfl)

/-- What a transaction that runs the command is for the references. One that fails is nothing. -/
def Command.outcome (d : Dialect) (env : Env) (p : Principal) (clock : Clock) (db : Db)
    (c : Command) :
    Label String Id :=
  if (c.run d env p clock db).isOk then c.label p db else .stay

theorem Command.outcome_ok {c : Command}
    {r : Db × Response} (h : c.run d env p clock db = .ok r) :
    c.outcome d env p clock db = c.label p db := by
  simp [Command.outcome, h, Except.isOk, Except.toBool]

theorem Command.outcome_error {c : Command}
    {e : Error} (h : c.run d env p clock db = .error e) : c.outcome d env p clock db = .stay := by
  simp [Command.outcome, h, Except.isOk, Except.toBool]

/-! ### References along a run -/

namespace Db

/-- The generation of a reference, 0 before it exists. -/
def generation (db : Db) (name : String) : Nat := ((db.reference name).map (·.generation)).getD 0

/-- The fence of a reference, 0 before it exists. -/
def fence (db : Db) (name : String) : Nat := ((db.reference name).map (·.fence)).getD 0

/-- The record a reference points to. -/
def target (db : Db) (name : String) : Option Id := (db.reference name).map (·.recordId)

/-- The reference that a transaction with this label moves. -/
def moves (db : Db) : Label String Id → Option String
  | .write name => some name
  | .use id => (db.coordination id).map (·.referenceName)
  | _ => none

end Db

/-- What a transaction with this label does to the rows. -/
structure Swapped (label : Label String Id) (db db' : Db) : Prop where
  /-- The generation grows by one with an effective move and never otherwise. -/
  generation : ∀ name, db'.generation name =
    db.generation name + if db.moves label = some name then 1 else 0
  /-- The target does not change without a move. -/
  target : ∀ name, db.moves label ≠ some name → db'.target name = db.target name
  /-- The fence grows by one with a new acquisition and never otherwise. -/
  fence : ∀ name, db'.fence name = db.fence name + if label.issued = some name then 1 else 0
  /-- A new acquisition has the new fence. -/
  granted : ∀ name id, label = .issue name id → db.coordination id = none ∧
    ∃ c, db'.coordination id = some c ∧ c.referenceName = name ∧
      c.expectedGeneration = db.generation name ∧ c.fence = db'.fence name ∧ c.state = .active
  /-- There are no other new acquisitions. -/
  appears : ∀ c, db'.coordination c.id = some c → db.coordination c.id = none →
    label = .issue c.referenceName c.id

/-- Acquisitions are told apart by their fences. -/
structure Db.Apart (db : Db) : Prop where
  fences : ∀ c ∈ db.registry.coordinations, ∀ c' ∈ db.registry.coordinations,
    c.referenceName = c'.referenceName → c.fence = c'.fence → c = c'
  active : ∀ c ∈ db.registry.coordinations, ∀ c' ∈ db.registry.coordinations,
    c.referenceName = c'.referenceName → c.state = .active → c'.state = .active → c = c'
  completed : ∀ c ∈ db.registry.coordinations, ∀ c' ∈ db.registry.coordinations,
    c.referenceName = c'.referenceName → c.state = .completed → c'.state = .completed →
    c.expectedGeneration = c'.expectedGeneration → c = c'

/-- References and acquisitions along a run. -/
structure Fencing {τ : Type} (step : Db → τ → Db) (label : Db → τ → Label String Id) (db : Db)
    (txs : List τ) :
    Prop where
  swaps : Run.Every step (fun db tx => Swapped (label db tx) db (step db tx)) db txs
  apart : Run.Always step Db.Apart db txs
  /-- A completion replaces the target that the reference had when its acquisition was granted. -/
  replaced : ∀ before grant middle done after name id,
    txs = before ++ grant :: (middle ++ done :: after) →
    label (before.foldl step db) grant = .issue name id →
    label ((before ++ grant :: middle).foldl step db) done = .use id →
    ((before ++ grant :: middle).foldl step db).target name = (before.foldl step db).target name

section Rows

variable {db db' : Db}

theorem Db.registers_generation (db : Db) (name : String) :
    db.registry.registers.generation name = db.generation name := by
  unfold State.generation Db.generation
  rw [Db.registers_cell]
  cases db.reference name <;> rfl

theorem Db.registers_fence (db : Db) (name : String) :
    db.registry.registers.fence name = db.fence name := by
  unfold State.fence Db.fence
  rw [Db.registers_cell]
  cases db.reference name <;> rfl

theorem Db.registers_value (db : Db) (name : String) :
    db.registry.registers.value name = db.target name := by
  unfold State.value Db.target
  rw [Db.registers_cell]
  cases db.reference name <;> rfl

theorem Db.registers_written (db : Db) (label : Label String Id) :
    db.registry.registers.written label = db.moves label := by
  cases label with
  | use id =>
    simp only [State.written, Db.moves, Db.registers_ticket, Option.map_map]
    rfl
  | _ => rfl

/-- The state of a ticket is that of its acquisition. -/
theorem CoordinationState.status_active {state : CoordinationState} :
    state.status = .active ↔ state = .active := by
  cases state <;> simp [CoordinationState.status]

theorem CoordinationState.status_used {state : CoordinationState} :
    state.status = .used ↔ state = .completed := by
  cases state <;> simp [CoordinationState.status]

theorem swapped_of_step {label : Label String Id}
    (h : Step db.registry.registers label db'.registry.registers) :
    Swapped label db db' where
  generation name := by
    rw [← Db.registers_generation, ← Db.registers_generation, ← Db.registers_written]
    exact h.generation name
  target name hm := by
    rw [← Db.registers_value, ← Db.registers_value]
    exact h.value (by rwa [Db.registers_written])
  fence name := by
    rw [← Db.registers_fence, ← Db.registers_fence]
    exact h.fence name
  granted name id hl := by
    subst hl
    obtain ⟨hnone, hsome, -⟩ := h.issued
    rw [Db.registers_ticket, Option.map_eq_none_iff] at hnone
    rw [Db.registers_ticket, Db.registers_generation, Db.registers_fence,
      Option.map_eq_some_iff] at hsome
    obtain ⟨c, hc, hticket⟩ := hsome
    simp only [Coordination.ticket, Ticket.mk.injEq] at hticket
    obtain ⟨h1, h2, h3, h4⟩ := hticket
    exact ⟨hnone, c, hc, h1, h2, h3, CoordinationState.status_active.mp h4⟩
  appears c hc hn := by
    refine h.appears (i := c.id) (t := c.ticket) ?_ ?_
    · rw [Db.registers_ticket, hn]
      rfl
    · rw [Db.registers_ticket, hc]
      rfl

theorem Db.Indexed.apart (hi : db.Indexed) (hf : Fenced db.registry.registers) : db.Apart := by
  have hticket : ∀ c ∈ db.registry.coordinations,
      db.registry.registers.ticket c.id = some c.ticket := by
    intro c hc
    rw [Db.registers_ticket, show db.coordination c.id = some c from hi.coordinations.get_eq hc]
    rfl
  have hsame : ∀ c ∈ db.registry.coordinations, ∀ c' ∈ db.registry.coordinations, c.id = c'.id →
      c = c' :=
    fun c hc c' hc' he => hi.coordinations.eq_of_key_eq hc hc' he
  refine ⟨fun c hc c' hc' hn he => ?_, fun c hc c' hc' hn ha ha' => ?_,
    fun c hc c' hc' hn hd hd' he => ?_⟩
  · exact hsame c hc c' hc' (hf.distinct _ _ _ _ (hticket c hc) (hticket c' hc') hn he)
  · exact hsame c hc c' hc' (hf.active_unique (hticket c hc) (hticket c' hc') hn
      (CoordinationState.status_active.mpr ha) (CoordinationState.status_active.mpr ha'))
  · exact hsame c hc c' hc' (hf.once _ _ _ _ (hticket c hc) (hticket c' hc') hn
      (CoordinationState.status_used.mpr hd) (CoordinationState.status_used.mpr hd') he)

end Rows

/-- What holds of the registry in every run, next to what a service keeps of its ledger. -/
structure Db.Enrolled (db : Db) : Prop where
  sound : db.ledger.Sound
  indexed : db.Indexed
  fenced : Fenced db.registry.registers

section Runs

variable {τ : Type} {step : Db → τ → Db} {label : Db → τ → Label String Id}

theorem Db.Enrolled.next {db db' : Db} {l : Label String Id} (h : db.Enrolled) (hs : Swap db db' l)
    (hsound : db'.ledger.Sound) (hle : db.ledger.minted ≤ db'.ledger.minted) : db'.Enrolled :=
  ⟨hsound, hs.indexed h.indexed hle, (hs.step h.indexed).fenced h.fenced⟩

/-- **A system whose transactions do what their labels say fences its references.** -/
theorem fencing_of_swap
    (hstep : ∀ db tx, db.Enrolled → Swap db (step db tx) (label db tx) ∧ (step db tx).Enrolled)
    {db : Db} (h : db.Enrolled) (txs : List τ) : Fencing step label db txs where
  swaps := Run.every_of_invariant (fun db tx hdb => (hstep db tx hdb).2)
    (fun db tx hdb => swapped_of_step ((hstep db tx hdb).1.step hdb.indexed)) h txs
  apart := Run.always_of_invariant (fun db tx hdb => (hstep db tx hdb).2)
    (fun db hdb => hdb.indexed.apart hdb.fenced) h txs
  replaced := by
    intro before grant middle done after name id _ hgrant hdone
    have hkeep : ∀ db tx, db.Enrolled → (step db tx).Enrolled :=
      fun db tx hdb => (hstep db tx hdb).2
    have hmove : ∀ db tx, db.Enrolled →
        Step db.registry.registers (label db tx) (step db tx).registry.registers :=
      fun db tx hdb => (hstep db tx hdb).1.step hdb.indexed
    have h₀ : (before.foldl step db).Enrolled := Run.invariant hkeep h before
    have hissue := hmove _ grant h₀
    rw [hgrant] at hissue
    obtain ⟨-, -, hsince⟩ := hissue.issued
    -- The acquisition and the pinned target are kept by every transaction in between.
    have hmid := Run.invariant
      (P := fun s : Db => s.Enrolled ∧
        Since id name ((before.foldl step db).registry.registers.generation name)
        ((before.foldl step db).registry.registers.value name) s.registry.registers)
      (fun s tx hs => ⟨hkeep s tx hs.1, (hmove s tx hs.1).since hs.2⟩)
        ⟨hkeep _ grant h₀, hsince⟩ middle
    rw [List.foldl_append, List.foldl_cons] at hdone ⊢
    have huse := hmove _ done hmid.1
    rw [hdone] at huse
    rw [← Db.registers_value, ← Db.registers_value]
    exact huse.used hmid.2

end Runs

end Hf2l.Exchange
