import Hf2l.Exchange.Domain.CanonicalJson
import Hf2l.Jobs.Store.Rows
import Hf2l.Lib.Checked
import Hf2l.Lib.Run

/-!
# `Hf2l.Jobs.Resources.Ledger`: provisioning effects, each recorded once

`Ledger.Run` of `internal/resources/ledger.go`. A worker claims the row of its operation key
in one transaction, runs the action outside any transaction, and records the outcome in a
second one. The claim leaves the worker's token in `observed_json`; the closing transaction
compares it, so a worker whose lease was adopted records nothing.

The system is any number of workers on one table. An action of the system is a call, a
transaction of one worker, the end of one worker's action, a failed transaction or a crash,
in any order. Each worker reads its own clock, so times need not increase.

JSON values are a parameter: the ledger asks for their canonical bytes, for the lease object and for
the token in an object (`jsonFormat`). `log` is not in the source: it lists the claims and the ends
of actions, so that `effects_recorded_once` can say whose result a row holds. -/

set_option autoImplicit false

namespace Hf2l.Jobs.Resources

open Lib Lib.Checked

/-- What the ledger uses of JSON. -/
structure Format (J : Type) where
  /-- `domain.CanonicalJSON`, if it returns no error. -/
  canonical : J → Option (List UInt8)
  /-- The empty object. -/
  empty : J
  /-- The object that holds a lease token. -/
  lease : Id → J
  /-- `object(v)["__lease_token"]`. -/
  token : J → Option Id
  token_lease : ∀ t, token (lease t) = some t

section
variable {J : Type}

/-- `equal`: both values have canonical bytes, and they are the same. -/
def Format.equal (F : Format J) (a b : J) : Bool :=
  match F.canonical a, F.canonical b with
  | some x, some y => x == y
  | _, _ => false

/-- An operation that a caller wants done. An empty attempt is no attempt. -/
structure OperationRequest (J : Type) where
  jobId : String
  attemptId : String
  componentId : String
  operation : String
  key : String
  desired : J

inductive Failure where
  | errUnsafe
  | errBusy
  /-- An error of the database or of the action. -/
  | failed
deriving DecidableEq, Repr

/-- `identifier`. -/
def identifier (s : String) : Bool :=
  decide (1 ≤ s.utf8ByteSize) && decide (s.utf8ByteSize ≤ 128) &&
    s.toList.zipIdx.all fun (c, i) =>
      ('a' ≤ c && c ≤ 'z') || ('A' ≤ c && c ≤ 'Z') || ('0' ≤ c && c ≤ '9') ||
        (decide (0 < i) && (c == '_' || c == '.' || c == '-'))

/-- `validateOperation`. -/
def validateOperation (F : Format J) (r : OperationRequest J) : Bool :=
  identifier r.jobId && identifier r.componentId && (r.attemptId == "" || identifier r.attemptId) &&
    decide (1 ≤ r.key.utf8ByteSize) && decide (r.key.utf8ByteSize ≤ 256) &&
    decide (1 ≤ r.operation.utf8ByteSize) && decide (r.operation.utf8ByteSize ≤ 64) &&
    (F.canonical r.desired).any fun raw => decide (raw.length ≤ 1024 * 1024)

inductive Standing where
  | planned
  | executing
  | ready
  | unknown
deriving DecidableEq, Repr

/-- A row of `jm_provisioning_operations`. Its identifier is hashed from the key. -/
structure Record (J : Type) where
  key : String
  jobId : String
  attemptId : Option String
  componentId : String
  operation : String
  state : Standing
  desired : J
  observed : J
  lastError : Option String := none
  updatedAt : Time

/-- The row that a call inserts if there is none. -/
def planned (F : Format J) (r : OperationRequest J) (now : Time) : Record J :=
  { key := r.key
    jobId := r.jobId
    attemptId := if r.attemptId = "" then none else some r.attemptId
    componentId := r.componentId
    operation := r.operation
    state := .planned
    desired := r.desired
    observed := F.empty
    updatedAt := now }

/-- The row was written for this request. -/
def bound (F : Format J) (row : Record J) (r : OperationRequest J) : Bool :=
  row.jobId == r.jobId && row.componentId == r.componentId && row.operation == r.operation &&
    F.equal row.desired r.desired

/-- How long an executing row is left to its worker, in seconds. -/
def leaseSeconds : Int := 5 * 60

/-- The row while a worker has it. -/
def leased (F : Format J) (row : Record J) (token : Id) (now : Time) : Record J :=
  { row with state := .executing, observed := F.lease token, updatedAt := now }

/-- The claim of a row. -/
inductive Claim (J : Type) where
  | replay (observed : J)
  | claimed (rows : List (Record J))

/-- The first transaction, from the row on. -/
def claimRow (F : Format J) (rows : List (Record J)) (row : Record J) (r : OperationRequest J)
    (token : Id) (now : Time) : Except Failure (Claim J) :=
  if bound F row r = false then throw .errUnsafe
  else if row.state = .ready then pure (.replay row.observed)
  else if row.state = .executing ∧ now < row.updatedAt + leaseSeconds then throw .errBusy
  else pure (.claimed (Table.put (·.key) (leased F row token now) rows))

/-- The first transaction. A failure rolls the insert back. -/
def claim (F : Format J) (rows : List (Record J)) (r : OperationRequest J) (token : Id)
    (now : Time) :
    Except Failure (Claim J) :=
  match Table.get (·.key) r.key rows with
  | none => claimRow F (rows ++ [planned F r now]) (planned F r now) r token now
  | some row => claimRow F rows row r token now

/-- The outcome of an action. The environment gives its return: no value if the action
failed or panicked, and possibly a nil map. -/
def outcome (F : Format J) : Option (Option J) → Except Failure J
  | none => throw .failed
  | some none => pure F.empty
  | some (some observed) =>
    if (F.canonical observed).isSome then pure observed else throw .errUnsafe

/-- The row with the outcome of its action. -/
def settledRow (F : Format J) (row : Record J) (now : Time) : Except Failure J → Record J
  | .ok observed =>
    { row with state := .ready, observed := observed, lastError := none, updatedAt := now }
  | .error _ => { row with
      state := .unknown, observed := F.empty, lastError := some "external_operation_failed",
        updatedAt := now }

/-- The closing transaction. -/
def finish (F : Format J) (rows : List (Record J)) (key : String) (token : Id) (now : Time)
    (result : Except Failure J) : Except Failure (List (Record J)) :=
  match Table.get (·.key) key rows with
  | none => throw .errBusy
  | some row =>
    if row.state ≠ .executing ∨ F.token row.observed ≠ some token then throw .errBusy
    else pure (Table.put (·.key) (settledRow F row now result) rows)

/-! ### The system -/

/-- Where a call of `Run` is. -/
inductive Stage (J : Type) where
  | begun (now : Time)
  | acting
  | acted (result : Except Failure J)
  | returned (result : Except Failure J)
  | crashed

structure Worker (J : Type) where
  token : Id
  request : OperationRequest J
  stage : Stage J

inductive Event (J : Type) where
  | claimed (token : Id) (key : String)
  | completed (token : Id) (key : String) (result : Except Failure J)

def Event.token : Event J → Id
  | .claimed token _ => token
  | .completed token _ _ => token

structure State (J : Type) where
  rows : List (Record J) := []
  workers : List (Worker J) := []
  log : List (Event J) := []

inductive Action (J : Type) where
  | call (request : OperationRequest J) (now : Time)
  | claim (token : Id)
  /-- The action of a worker ends. -/
  | act (token : Id) (result : Option (Option J))
  | finish (token : Id) (now : Time)
  /-- A transaction of a worker fails and is rolled back. -/
  | abort (token : Id)
  | crash (token : Id)

def Action.token : Action J → Option Id
  | .call _ _ => none
  | .claim token | .act token _ | .finish token _ | .abort token | .crash token => some token

def State.move (s : State J) (w : Worker J) (stage : Stage J) : State J :=
  { s with workers := Table.put (·.token) { w with stage := stage } s.workers }

/-- One step of a worker. -/
def advance (F : Format J) (s : State J) (w : Worker J) : Action J → State J
  | .claim _ =>
    match w.stage with
    | .begun now =>
      match claim F s.rows w.request w.token now with
      | .error e => s.move w (.returned (.error e))
      | .ok (.replay observed) => s.move w (.returned (.ok observed))
      | .ok (.claimed rows) =>
        { s.move w .acting with rows := rows, log := s.log ++ [.claimed w.token w.request.key] }
    | _ => s
  | .act _ result =>
    match w.stage with
    | .acting =>
      { s.move w (.acted (outcome F result)) with
        log := s.log ++ [.completed w.token w.request.key (outcome F result)] }
    | _ => s
  | .finish _ now =>
    match w.stage with
    | .acted result =>
      match finish F s.rows w.request.key w.token now result with
      | .error e => s.move w (.returned (.error e))
      | .ok rows => { s.move w (.returned result) with rows := rows }
    | _ => s
  | .abort _ =>
    match w.stage with
    | .begun _ | .acted _ => s.move w (.returned (.error .failed))
    | _ => s
  | .crash _ => s.move w .crashed
  | .call _ _ => s

def step (F : Format J) (s : State J) : Action J → State J
  | .call request now =>
    let stage : Stage J := if validateOperation F request then
      .begun now else .returned (.error .errUnsafe)
    { s with workers := s.workers ++ [⟨Table.fresh (·.token) s.workers, request, stage⟩] }
  | a =>
    match a.token.bind fun token => Table.get (·.token) token s.workers with
    | none => s
    | some w => advance F s w a

/-! ### What the log says -/

section
variable (log : List (Event J))

/-- The last worker that claimed a key. -/
def holder (key : String) : Option Id :=
  (log.filterMap fun
    | .claimed token k => if k = key then some token else none
    | .completed _ _ _ => none).getLast?

/-- The actions that a worker has completed. -/
def completions (token : Id) : List (String × Except Failure J) :=
  log.filterMap fun
    | .claimed _ _ => none
    | .completed t key result => if t = token then some (key, result) else none

theorem holder_claimed (token : Id) (key k : String) :
    holder (log ++ [.claimed token key]) k = if key = k then some token else holder log k := by
  unfold holder
  rw [List.filterMap_append]
  by_cases h : key = k <;> simp [h]

theorem holder_completed (token : Id) (key k : String) (result : Except Failure J) :
    holder (log ++ [.completed token key result]) k = holder log k := by
  simp [holder, List.filterMap_append]

theorem completions_claimed (token t : Id) (key : String) :
    completions (log ++ [.claimed token key]) t = completions log t := by
  simp [completions, List.filterMap_append]

theorem completions_completed (token t : Id) (key : String) (result : Except Failure J) :
    completions (log ++ [.completed token key result]) t =
      completions log t ++ if token = t then [(key, result)] else [] := by
  unfold completions
  rw [List.filterMap_append]
  by_cases h : token = t <;> simp [h]

end

variable {token : Id} {F : Format J} {now : Time} {r : OperationRequest J} {row : Record J}
  {rows : List (Record J)}

theorem completions_nil {log : List (Event J)} (h : ∀ e ∈ log, e.token ≠ token) :
    completions log token = [] := by
  refine List.filterMap_eq_nil_iff.mpr fun e he => ?_
  cases e with
  | claimed t key => rfl
  | completed t key result => exact if_neg (h _ he)

/-! ### The transactions -/

theorem claimRow_ok {c : Claim J} (h : claimRow F rows row r token now = .ok c) :
    bound F row r = true ∧ ((row.state = .ready ∧ c = .replay row.observed) ∨
        (row.state ≠ .ready ∧ c = .claimed (Table.put (·.key) (leased F row token now) rows))) := by
  unfold claimRow at h
  split at h
  · cases h
  rename_i hb
  refine ⟨by simpa using hb, ?_⟩
  split at h
  · exact Or.inl ⟨‹_›, (pure_ok.mp h).symm⟩
  rename_i hready
  split at h
  · cases h
  exact Or.inr ⟨hready, (pure_ok.mp h).symm⟩

/-- What a claim does to the table: the row of the key is executing under the token, and the
other rows are as they were. No ready row is claimed. -/
theorem claim_claimed {rows' : List (Record J)}
    (hk : Table.Keyed (·.key) rows) (h : claim F rows r token now = .ok (.claimed rows')) :
    Table.Keyed (·.key) rows' ∧
    (∀ row ∈ rows', (row.key = r.key ∧ row.state = .executing ∧ F.token row.observed = some token) ∨
      (row.key ≠ r.key ∧ row ∈ rows)) ∧
    ∀ row ∈ rows, row.state = .ready → row ∈ rows' := by
  unfold claim at h
  cases hg : Table.get (·.key) r.key rows with
  | none =>
    simp only [hg] at h
    obtain ⟨-, hc⟩ := claimRow_ok h
    rcases hc with ⟨-, hc⟩ | ⟨-, hc⟩
    · cases hc
    · cases hc
      have hnew : ∀ x ∈ rows, x.key ≠ r.key := Table.get_none hg
      refine ⟨(hk.concat hnew).put _, fun row hrow => ?_, fun row hrow _ => ?_⟩
      · rcases Table.of_mem_put hrow with ⟨hin, hne⟩ | rfl
        · rcases List.mem_append.mp hin with hin | hin
          · exact Or.inr ⟨hne, hin⟩
          · exact absurd (congrArg Record.key (List.mem_singleton.mp hin)) hne
        · exact Or.inl ⟨rfl, rfl, F.token_lease token⟩
      · exact Table.mem_put_of_ne (List.mem_append_left _ hrow) (hnew row hrow)
  | some found =>
    simp only [hg] at h
    obtain ⟨hmem, hkey⟩ := Table.get_mem hg
    obtain ⟨-, hc⟩ := claimRow_ok h
    rcases hc with ⟨-, hc⟩ | ⟨hready, hc⟩
    · cases hc
    · cases hc
      refine ⟨hk.put _, fun row hrow => ?_, fun row hrow hr => ?_⟩
      · rcases Table.of_mem_put hrow with ⟨hin, hne⟩ | rfl
        · exact Or.inr ⟨fun e => hne (e.trans hkey.symm), hin⟩
        · exact Or.inl ⟨hkey, rfl, F.token_lease token⟩
      · refine Table.mem_put_of_ne hrow fun e => hready ?_
        rw [← hk.eq_of_key_eq hrow hmem e]
        exact hr

theorem finish_ok {rows' : List (Record J)} {key : String}
    {result : Except Failure J} (h : finish F rows key token now result = .ok rows') :
    ∃ row ∈ rows, row.key = key ∧ row.state = .executing ∧ F.token row.observed = some token ∧
      rows' = Table.put (·.key) (settledRow F row now result) rows := by
  unfold finish at h
  cases hg : Table.get (·.key) key rows with
  | none =>
    simp only [hg] at h
    cases h
  | some row =>
    simp only [hg] at h
    split at h
    · cases h
    · rename_i hc
      obtain ⟨hmem, hkey⟩ := Table.get_mem hg
      simp only [not_or, ne_eq, not_not] at hc
      exact ⟨row, hmem, hkey, hc.1, hc.2, (pure_ok.mp h).symm⟩

/-- A claim of a row that is ready and bound to the request is answered from the row. -/
theorem claim_ready (hk : Table.Keyed (·.key) rows) (hrow : row ∈ rows) (hkey : row.key = r.key)
    (hready : row.state = .ready) (hb : bound F row r = true) (token : Id) (now : Time) :
    claim F rows r token now = .ok (.replay row.observed) := by
  have hg : Table.get (·.key) r.key rows = some row := hkey ▸ hk.get_eq hrow
  simp [claim, hg, claimRow, hb, hready, pure, Except.pure]

/-- A claim of a row that is bound to something else is refused. -/
theorem claim_unbound (hk : Table.Keyed (·.key) rows) (hrow : row ∈ rows) (hkey : row.key = r.key)
    (hb : bound F row r = false) (token : Id) (now : Time) :
    claim F rows r token now = .error .errUnsafe := by
  have hg : Table.get (·.key) r.key rows = some row := hkey ▸ hk.get_eq hrow
  simp [claim, hg, claimRow, hb, throw, throwThe, MonadExceptOf.throw]

theorem settledRow_key (F : Format J) (row : Record J) (now : Time) (result : Except Failure J) :
    (settledRow F row now result).key = row.key := by
  cases result <;> rfl

/-! ### What a step can do -/

/-- The states that one step of a worker can lead to. -/
inductive Moves (F : Format J) (s : State J) (w : Worker J) : State J → Prop
  | stays : Moves F s w s
  | ends (result : Except Failure J) : Moves F s w (s.move w (.returned result))
  | crashes : Moves F s w (s.move w .crashed)
  | claims {now : Time} {rows : List (Record J)} (hstage : w.stage = .begun now)
      (hc : claim F s.rows w.request w.token now = .ok (.claimed rows)) :
      Moves F s w { s.move w
        .acting with rows := rows, log := s.log ++ [.claimed w.token w.request.key] }
  | acts (result : Except Failure J) (hstage : w.stage = .acting) :
      Moves F s w { s.move w (.acted result) with
        log := s.log ++ [.completed w.token w.request.key result] }
  | records {result : Except Failure J} {now : Time} {rows : List (Record J)}
    (hstage : w.stage = .acted result)
      (hf : finish F s.rows w.request.key w.token now result = .ok rows) :
      Moves F s w { s.move w (.returned result) with rows := rows }

theorem advance_moves (F : Format J) (s : State J) (w : Worker J) (a : Action J) :
    Moves F s w (advance F s w a) := by
  cases a with
  | call request now => exact .stays
  | claim token =>
    cases hstage : w.stage with
    | begun now =>
      cases hc : claim F s.rows w.request w.token now with
      | error e =>
        simp only [advance, hstage, hc]
        exact .ends _
      | ok c =>
        cases c with
        | replay observed =>
          simp only [advance, hstage, hc]
          exact .ends _
        | claimed rows =>
          simp only [advance, hstage, hc]
          exact .claims hstage hc
    | acting | acted | returned | crashed =>
      simp only [advance, hstage]
      exact .stays
  | act token result =>
    cases hstage : w.stage with
    | acting =>
      simp only [advance, hstage]
      exact .acts _ hstage
    | begun | acted | returned | crashed =>
      simp only [advance, hstage]
      exact .stays
  | finish token now =>
    cases hstage : w.stage with
    | acted result =>
      cases hf : finish F s.rows w.request.key w.token now result with
      | error e =>
        simp only [advance, hstage, hf]
        exact .ends _
      | ok rows =>
        simp only [advance, hstage, hf]
        exact .records hstage hf
    | begun | acting | returned | crashed =>
      simp only [advance, hstage]
      exact .stays
  | abort token =>
    cases hstage : w.stage with
    | begun | acted =>
      simp only [advance, hstage]
      exact .ends _
    | acting | returned | crashed =>
      simp only [advance, hstage]
      exact .stays
  | crash token => exact .crashes

/-- A step does nothing, is a call, or is the step of a worker. -/
theorem step_cases (F : Format J) (s : State J) (a : Action J) :
    step F s a = s ∨ (∃ request now, a = .call request now) ∨
      ∃ w ∈ s.workers, a.token = some w.token ∧ step F s a = advance F s w a := by
  have hworker : ∀ token, a.token = some token →
      step F s a = (match Table.get (·.token) token s.workers with
        | none => s
        | some w => advance F s w a) →
      step F s a = s ∨ (∃ request now, a = .call request now) ∨
        ∃ w ∈ s.workers, a.token = some w.token ∧ step F s a = advance F s w a := by
    intro token ht he
    cases hg : Table.get (·.token) token s.workers with
    | none =>
      rw [hg] at he
      exact Or.inl he
    | some w =>
      rw [hg] at he
      obtain ⟨hmem, hkey⟩ := Table.get_mem hg
      exact Or.inr (Or.inr ⟨w, hmem, by rw [ht, hkey], he⟩)
  cases a with
  | call request now => exact Or.inr (Or.inl ⟨request, now, rfl⟩)
  | claim token | act token result | finish token now | abort token | crash token =>
    exact hworker token rfl rfl

/-! ### The invariant -/

/-- What the log has of a worker. -/
def Logged (log : List (Event J)) (w : Worker J) : Prop :=
  match w.stage with
  | .begun _ | .acting => completions log w.token = []
  | .acted result => completions log w.token = [(w.request.key, result)]
  | _ => True

/-- The row holds the result of the one action that its last claimant completed. -/
def Holds (log : List (Event J)) (row : Record J) : Prop :=
  ∃ token, holder log row.key = some token ∧ completions log token = [(row.key, .ok row.observed)]

structure Sound (F : Format J) (s : State J) : Prop where
  rows : Table.Keyed (·.key) s.rows
  workers : Table.Keyed (·.token) s.workers
  drawn : ∀ e ∈ s.log, ∃ w ∈ s.workers, w.token = e.token
  logged : ∀ w ∈ s.workers, Logged s.log w
  leased : ∀ row ∈ s.rows, row.state = .executing →
    ∃ token, F.token row.observed = some token ∧ holder s.log row.key = some token
  recorded : ∀ row ∈ s.rows, row.state = .ready → Holds s.log row

section
variable {F : Format J} {s : State J} {w : Worker J}

theorem move_workers (hw : w ∈ s.workers) (stage : Stage J) (e : Event J)
    (h : ∃ x ∈ s.workers, x.token = e.token) :
    ∃ x ∈ (s.move w stage).workers, x.token = e.token := by
  obtain ⟨x, hx, he⟩ := h
  by_cases hxw : x.token = w.token
  · exact ⟨{ w with stage := stage }, Table.mem_put_self hw rfl, hxw ▸ he⟩
  · exact ⟨x, Table.mem_put_of_ne hx hxw, he⟩

section
variable (h : Sound F s)
include h

section
variable (hw : w ∈ s.workers)
include hw

/-- A worker that only changes its stage. -/
theorem Sound.move {stage : Stage J} (hstage : Logged s.log { w with stage := stage }) :
    Sound F (s.move w stage) where
  rows := h.rows
  workers := h.workers.put _
  drawn e he := move_workers hw stage e (h.drawn e he)
  logged x hx := by
    rcases Table.of_mem_put hx with ⟨hx, -⟩ | rfl
    · exact h.logged x hx
    · exact hstage
  leased := h.leased
  recorded := h.recorded

theorem Sound.claimed {now : Time} (hstage : w.stage = .begun now)
    {rows : List (Record J)} (hc : claim F s.rows w.request w.token now = .ok (.claimed rows)) :
    Sound F { s.move w
      .acting with rows := rows, log := s.log ++ [.claimed w.token w.request.key] } := by
  obtain ⟨hkeyed, hrow, -⟩ := claim_claimed h.rows hc
  have hnone : completions s.log w.token = [] := by
    have hl := h.logged w hw
    rw [Logged, hstage] at hl
    exact hl
  refine ⟨hkeyed, h.workers.put _, ?_, ?_, ?_, ?_⟩
  · intro e he
    rcases Table.mem_concat.mp he with he | rfl
    · exact move_workers hw .acting e (h.drawn e he)
    · exact ⟨{ w with stage := .acting }, Table.mem_put_self hw rfl, rfl⟩
  · intro x hx
    rcases Table.of_mem_put hx with ⟨hx, -⟩ | rfl
    · have hl := h.logged x hx
      simp only [Logged, completions_claimed] at hl ⊢
      exact hl
    · show completions _ w.token = []
      rw [completions_claimed]
      exact hnone
  · intro row hin hex
    rcases hrow row hin with ⟨hkey, -, htoken⟩ | ⟨hne, hold⟩
    · exact ⟨w.token, htoken, by rw [holder_claimed, if_pos hkey.symm]⟩
    · obtain ⟨t, ht, hh⟩ := h.leased row hold hex
      exact ⟨t, ht, by rw [holder_claimed, if_neg (Ne.symm hne)]; exact hh⟩
  · intro row hin hready
    rcases hrow row hin with ⟨-, hex, -⟩ | ⟨hne, hold⟩
    · rw [hready] at hex
      cases hex
    · obtain ⟨t, hh, hcomp⟩ := h.recorded row hold hready
      refine ⟨t, ?_, ?_⟩
      · rw [holder_claimed, if_neg (Ne.symm hne)]
        exact hh
      · rw [completions_claimed]
        exact hcomp

theorem Sound.acted (hstage : w.stage = .acting) (result : Except Failure J) :
    Sound F { s.move w
      (.acted result) with log := s.log ++ [.completed w.token w.request.key result] } := by
  have hnone : completions s.log w.token = [] := by
    have hl := h.logged w hw
    rw [Logged, hstage] at hl
    exact hl
  refine ⟨h.rows, h.workers.put _, ?_, ?_, ?_, ?_⟩
  · intro e he
    rcases Table.mem_concat.mp he with he | rfl
    · exact move_workers hw (.acted result) e (h.drawn e he)
    · exact ⟨{ w with stage := .acted result }, Table.mem_put_self hw rfl, rfl⟩
  · intro x hx
    rcases Table.of_mem_put hx with ⟨hx, hne⟩ | rfl
    · have hl := h.logged x hx
      have hc : completions (s.log ++ [.completed w.token w.request.key result]) x.token =
          completions s.log x.token := by
        rw [completions_completed, if_neg (Ne.symm hne), List.append_nil]
      simp only [Logged, hc] at hl ⊢
      exact hl
    · show completions _ w.token = [(w.request.key, result)]
      rw [completions_completed, if_pos rfl, hnone, List.nil_append]
  · intro row hin hex
    obtain ⟨t, ht, hh⟩ := h.leased row hin hex
    exact ⟨t, ht, by rw [holder_completed]; exact hh⟩
  · intro row hin hready
    obtain ⟨t, hh, hcomp⟩ := h.recorded row hin hready
    -- The claimant of a ready row has completed its action, so it is not this worker.
    have hne : w.token ≠ t := by
      rintro rfl
      rw [hnone] at hcomp
      cases hcomp
    refine ⟨t, ?_, ?_⟩
    · rw [holder_completed]
      exact hh
    · rw [completions_completed, if_neg hne, List.append_nil]
      exact hcomp

theorem Sound.finished {result : Except Failure J}
    (hstage : w.stage = .acted result) {now : Time} {rows : List (Record J)}
    (hf : finish F s.rows w.request.key w.token now result = .ok rows) :
    Sound F { s.move w (.returned result) with rows := rows } := by
  obtain ⟨row, hmem, hkey, hex, htoken, rfl⟩ := finish_ok hf
  have hmoved : Sound F (s.move w (.returned result)) := h.move hw trivial
  have hcomp : completions s.log w.token = [(w.request.key, result)] := by
    have hl := h.logged w hw
    rw [Logged, hstage] at hl
    exact hl
  -- The lease in the row is the last claim, so the last claimant is this worker.
  have hholder : holder s.log row.key = some w.token := by
    obtain ⟨t, ht, hh⟩ := h.leased row hmem hex
    rw [htoken, Option.some.injEq] at ht
    rw [hh, ht]
  refine ⟨h.rows.put _, hmoved.workers, hmoved.drawn, hmoved.logged, ?_, ?_⟩
  · intro x hx hxe
    rcases Table.of_mem_put hx with ⟨hx, -⟩ | rfl
    · exact h.leased x hx hxe
    · cases result <;> cases hxe
  · intro x hx hready
    rcases Table.of_mem_put hx with ⟨hx, -⟩ | rfl
    · exact h.recorded x hx hready
    · cases result with
      | error e => cases hready
      | ok observed =>
        refine ⟨w.token, hholder, ?_⟩
        show completions s.log w.token = [(row.key, .ok observed)]
        rw [hcomp, hkey]

theorem Sound.moves {s' : State J} (hm : Moves F s w s') : Sound F s' := by
  cases hm with
  | stays => exact h
  | ends result | crashes => exact h.move hw trivial
  | claims hstage hc => exact h.claimed hw hstage hc
  | acts result hstage => exact h.acted hw hstage result
  | records hstage hf => exact h.finished hw hstage hf

end

theorem Sound.call (request : OperationRequest J) (now : Time) :
    Sound F (step F s (.call request now)) := by
  have hfresh : ∀ x ∈ s.workers, x.token ≠ Table.fresh (·.token) s.workers :=
    fun x hx => Nat.ne_of_lt (Table.lt_fresh hx)
  refine ⟨h.rows, h.workers.concat hfresh, ?_, ?_, h.leased, h.recorded⟩
  · intro e he
    obtain ⟨x, hx, ht⟩ := h.drawn e he
    exact ⟨x, List.mem_append_left _ hx, ht⟩
  · intro x hx
    rcases List.mem_append.mp hx with hx | hx
    · exact h.logged x hx
    · -- A new token is in no event of the log.
      rw [List.mem_singleton.mp hx]
      have hnone : completions s.log (Table.fresh (·.token) s.workers) = [] := by
        refine completions_nil fun e he ht => ?_
        obtain ⟨y, hy, hyt⟩ := h.drawn e he
        exact hfresh y hy (hyt.trans ht)
      simp only [Logged]
      split
      · exact hnone
      · exact hnone
      · rename_i heq
        split at heq <;> cases heq
      · trivial

theorem Sound.step (a : Action J) : Sound F (step F s a) := by
  rcases step_cases F s a with he | ⟨request, now, rfl⟩ | ⟨w, hw, -, he⟩
  · rw [he]
    exact h
  · exact h.call request now
  · rw [he]
    exact h.moves hw (advance_moves F s w a)

end

theorem Sound.start (F : Format J) : Sound F ({} : State J) where
  rows := List.nodup_nil
  workers := List.nodup_nil
  drawn := by simp
  logged := by simp
  leased := by simp
  recorded := by simp

end

/-! ### The guarantees -/

/-- What one step of the system may do. -/
structure Guarded (F : Format J) (s : State J) (a : Action J) : Prop where
  /-- A ready row stays as it is. -/
  stable : ∀ row ∈ s.rows, row.state = .ready → row ∈ (step F s a).rows
  /-- A claim of a ready row, by a request it is bound to, returns what the row holds. No
  action is run, and nothing else changes. -/
  replays : ∀ w ∈ s.workers, ∀ now, w.stage = .begun now → a = .claim w.token → ∀ row ∈ s.rows,
    row.key = w.request.key → row.state = .ready → bound F row w.request = true →
      step F s a = s.move w (.returned (.ok row.observed))
  /-- A claim of a row that is bound to another request is refused, and nothing else changes. -/
  refuses : ∀ w ∈ s.workers, ∀ now, w.stage = .begun now → a = .claim w.token → ∀ row ∈ s.rows,
    row.key = w.request.key → bound F row w.request = false →
      step F s a = s.move w (.returned (.error .errUnsafe))
  /-- A worker that claimed, and is not the last to have claimed, writes no row. -/
  fenced : ∀ w ∈ s.workers, (∀ now, w.stage ≠ .begun now) →
    holder s.log w.request.key ≠ some w.token → a.token = some w.token → (step F s a).rows = s.rows

section
variable {F : Format J} {s : State J}

theorem Sound.stable (h : Sound F s) (a : Action J) {row : Record J} (hrow : row ∈ s.rows)
    (hready : row.state = .ready) : row ∈ (Resources.step F s a).rows := by
  rcases step_cases F s a with he | ⟨request, now, rfl⟩ | ⟨w, hw, -, he⟩
  · rw [he]
    exact hrow
  · exact hrow
  · rw [he]
    have hm := advance_moves F s w a
    generalize advance F s w a = s' at hm
    cases hm with
    | stays | ends result | crashes | acts result hstage => exact hrow
    | claims hstage hc => exact (claim_claimed h.rows hc).2.2 row hrow hready
    | records hstage hf =>
      -- The row that is written was executing.
      obtain ⟨found, hfound, -, hex, -, rfl⟩ := finish_ok hf
      refine Table.mem_put_of_ne hrow fun e => ?_
      rw [settledRow_key] at e
      rw [h.rows.eq_of_key_eq hrow hfound e, hex] at hready
      cases hready

theorem Sound.fenced (h : Sound F s) {a : Action J} {w : Worker J} (hw : w ∈ s.workers)
    (hclaimed : ∀ now, w.stage ≠ .begun now) (hother : holder s.log w.request.key ≠ some w.token)
    (ha : a.token = some w.token) : (Resources.step F s a).rows = s.rows := by
  rcases step_cases F s a with he | ⟨request, now, rfl⟩ | ⟨x, hx, hxt, he⟩
  · rw [he]
  · rfl
  · rw [ha, Option.some.injEq] at hxt
    obtain rfl := h.workers.eq_of_key_eq hx hw hxt.symm
    rw [he]
    have hm := advance_moves F s x a
    generalize advance F s x a = s' at hm
    cases hm with
    | stays | ends result | crashes | acts result hstage => rfl
    | claims hstage hc => exact absurd hstage (hclaimed _)
    | records hstage hf =>
      -- To record it would have to find its own token, which only the last claimant left.
      obtain ⟨row, hrow, hkey, hex, htoken, -⟩ := finish_ok hf
      obtain ⟨t, ht, hh⟩ := h.leased row hrow hex
      rw [htoken, Option.some.injEq] at ht
      rw [hkey, ← ht] at hh
      exact absurd hh hother

/-- The step of a worker that is about to claim. -/
theorem step_claim (hk : Table.Keyed (·.token) s.workers) {w : Worker J} (hw : w ∈ s.workers) :
    Resources.step F s (.claim w.token) = advance F s w (.claim w.token) := by
  show (match (some w.token).bind fun token => Table.get (·.token) token s.workers with
    | none => s | some x => advance F s x (.claim w.token)) = _
  rw [Option.bind_some, hk.get_eq hw]

theorem Sound.guarded (h : Sound F s) (a : Action J) : Guarded F s a where
  stable row hrow hready := h.stable a hrow hready
  replays w hw now hstage ha row hrow hkey hready hb := by
    subst ha
    rw [step_claim h.workers hw]
    simp only [advance, hstage, claim_ready h.rows hrow hkey hready hb]
  refuses w hw now hstage ha row hrow hkey hb := by
    subst ha
    rw [step_claim h.workers hw]
    simp only [advance, hstage, claim_unbound h.rows hrow hkey hb]
  fenced w hw hclaimed hother ha := h.fenced hw hclaimed hother ha

end

/-- **Every effect is recorded once.** In every run of the system from an empty table, a ready
row always holds the result of the one action that its last claimant completed, and every
step keeps ready rows, replays and refuses claims as it should and lets only the last
claimant write. -/
theorem effects_recorded_once (F : Format J) (run : List (Action J)) :
    Run.Always (step F) (fun s => ∀ row ∈ s.rows, row.state = .ready → Holds s.log row) {} run ∧
      Run.Every (step F) (Guarded F) {} run := by
  constructor
  · exact Run.always_of_invariant (J := Sound F) (fun s a h => h.step a) (fun s h => h.recorded)
      (Sound.start F) run
  · exact Run.every_of_invariant (J := Sound F) (fun s a h => h.step a) (fun s a h => h.guarded a)
      (Sound.start F) run

end

/-! ### JSON values -/

open Lib.Json

/-- The JSON values of the ledger. `pythonFloat` spells a number that is no integer. -/
def jsonFormat (pythonFloat : String → Option (List Char)) : Format Value where
  canonical v := (Exchange.Domain.canonical pythonFloat false v).toOption.map fun bytes =>
    bytes.data.toList
  empty := .obj []
  lease token := .obj [("__lease_token", .int token)]
  token
    | .obj fields =>
      match fields.lookup "__lease_token" with
      | some (.int (.ofNat token)) => some token
      | _ => none
    | _ => none
  token_lease _ := rfl

/-- An operation on a component. -/
def volumeRequest : OperationRequest Value :=
  ⟨"job", "", "c", "create", "k", .obj [("size", .int 1)]⟩

/-- A worker takes longer than its lease. Another one takes the row over and is done first. -/
def adoption : List (Action Value) := [
  .call volumeRequest 0, .claim 1, .call volumeRequest 300, .claim 2,
  .act 2 (some (some (.obj [("volume", .str "b")]))), .finish 2 301,
  .act 1 (some (some (.obj [("volume", .str "a")]))), .finish 1 302]

/-- The name of the volume that a row has recorded. -/
def recorded (row : Record Value) : Option Value :=
  match row.observed with
  | .obj fields => fields.lookup "volume"
  | _ => none

/-- The error that a worker has returned. -/
def refusal (w : Worker Value) : Option Failure :=
  match w.stage with
  | .returned (.error e) => some e
  | _ => none

/-- The row holds the volume of the worker that took it over, and the late one was turned away. -/
theorem effects_recorded_once_adoption :
    (adoption.foldl (step (jsonFormat fun _ => none)) {}).rows.map
      (fun row => (row.state, recorded row)) = [(.ready, some (.str "b"))] ∧
    (adoption.foldl (step (jsonFormat fun _ => none)) {}).workers.map refusal =
      [some .errBusy, none] ∧
    Run.Every (step (jsonFormat fun _ => none)) (Guarded (jsonFormat fun _ => none)) {} adoption :=
  ⟨by rfl, by decide +kernel, (effects_recorded_once _ adoption).2⟩

end Hf2l.Jobs.Resources
