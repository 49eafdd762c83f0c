import Hf2l.Exchange.Ledger.Markers
import Hf2l.Exchange.Python.Steady

/-!
# `Hf2l.Exchange.Python.Markers`: a call in progress is marked

Every participant has a token of its own: an execution its lease, a PUT its marker. A token
in use is in the ledger of its attempt from before the call starts until it has ended for
certain: only the participant itself takes its token out, and it does so when its call cannot
be in progress any more. `Sys.Guarded` is the invariant; a repair keeps it if the operator's
assertion that nothing is in progress is true (`Sys.RepairsQuiet`).
-/

set_option autoImplicit false

namespace Hf2l.Exchange.Python

open Lib
open Attempts

/-! ### Identities of the participants -/

/-- The identifier in the token has been drawn. -/
def Drawn (l : Ledger) : Token → Prop
  | .lease i => l.Minted i
  | .gatewayPut _ i => l.Minted i

theorem Drawn.mono {l l' : Ledger} {t : Token} (h : Drawn l t) (hle : l.minted ≤ l'.minted) :
    Drawn l' t := by
  cases t with
  | lease i | gatewayPut part i => exact Ledger.Minted.mono h hle

section Rows

variable (l : Ledger) (tick : Nat)

structure Execution.Known (e : Execution) : Prop where
  coherent : e.Coherent
  leased : ∃ i, e.attempt.token = some (.lease i) ∧ l.Minted i
  key : e.attempt.objectKey.attemptId = e.attempt.id
  past : e.id < tick

structure Put.Known (p : Put) : Prop where
  marked : ∃ part i, p.handle.token = .gatewayPut part i ∧ l.Minted i
  key : p.handle.objectKey.attemptId = p.handle.attemptId
  past : p.id < tick

structure Call.Known (c : Call) : Prop where
  key : c.key.attemptId = c.attemptId
  named : ∃ t, c.token = some t ∧ Drawn l t
  started : c.startedAt < tick
  ended : ∀ t, c.endedAt = some t → t < tick

end Rows

structure Sys.Known (s : Sys) : Prop extends Sys.Steady s where
  keys : s.db.ledger.KeysMatch
  execution : ∀ e ∈ s.executions, e.Known s.db.ledger s.tick
  executionIds : Table.Keyed Execution.id s.executions
  leases : Table.Keyed (fun e => e.attempt.token) s.executions
  put : ∀ p ∈ s.puts, p.Known s.db.ledger s.tick
  putIds : Table.Keyed Put.id s.puts
  markers : Table.Keyed (fun p => p.handle.token) s.puts
  call : ∀ c ∈ s.calls, c.Known s.db.ledger s.tick
  /-- What a `prune` has selected stays behind the barrier, and gets no marker. -/
  selected : ∀ p ∈ s.prunings, ∀ id ∈ p.rows.attempts, s.db.ledger.Minted id ∧
    s.db.ledger.Barrier id

namespace Sys.Known

variable {s : Sys} (env : Env)

/-- A token that a transaction draws is not one in use. -/
theorem token_ne (h : s.Known) (i : Nat) :
    ∀ e ∈ s.executions, e.attempt.token ≠ some (.lease (s.db.ledger.fresh i)) := by
  intro e he heq
  obtain ⟨j, hj, hminted⟩ := (h.execution e he).leased
  rw [hj, Option.some.injEq, Token.lease.injEq] at heq
  exact hminted.ne_fresh i heq

theorem marker_ne (h : s.Known) (part i : Nat) :
    ∀ p ∈ s.puts, p.handle.token ≠ .gatewayPut part (s.db.ledger.fresh i) := by
  intro p hp heq
  obtain ⟨part', j, hj, hminted⟩ := (h.put p hp).marked
  rw [hj, Token.gatewayPut.injEq] at heq
  exact hminted.ne_fresh i heq.2

/-- Leases and markers of PUTs are different tokens. -/
theorem lease_ne_marker (h : s.Known) {e : Execution} (he : e ∈ s.executions) {p : Put}
    (hp : p ∈ s.puts) :
    e.attempt.token ≠ some p.handle.token := by
  obtain ⟨i, hi, -⟩ := (h.execution e he).leased
  obtain ⟨part, j, hj, -⟩ := (h.put p hp).marked
  rw [hi, hj]
  simp

/-- A call is not made under a token that is only drawn now. -/
theorem call_token_ne (h : s.Known) {c : Call} (hc : c ∈ s.calls) :
    (∀ i, c.token ≠ some (.lease (s.db.ledger.fresh i))) ∧
      ∀ part i, c.token ≠ some (.gatewayPut part (s.db.ledger.fresh i)) := by
  obtain ⟨t, ht, hdrawn⟩ := (h.call c hc).named
  rw [ht]
  refine ⟨fun i he => ?_, fun part i he => ?_⟩
  · rw [Option.some.inj he] at hdrawn
    exact Ledger.Minted.ne_fresh hdrawn i rfl
  · rw [Option.some.inj he] at hdrawn
    exact Ledger.Minted.ne_fresh hdrawn i rfl

theorem step_execution (h : s.Known) (a : Action) :
    ∀ e ∈ (s.step env a).executions, e.Known (s.step env a).db.ledger (s.step env a).tick := by
  have hs := h.regular.accounted.toSound
  have he := step_effect env hs h.linked a
  intro e' he'
  rcases (s.act_rest env a).executions.mem he' with ⟨e, hem, hr⟩ | ⟨x, now, hspawn, rfl⟩
  · obtain ⟨hcoherent, ⟨i, htoken, hminted⟩, hkey, hpast⟩ := h.execution e hem
    refine ⟨hr.coherent hcoherent, ⟨i, ?_, hminted.mono (he.minted_le hs)⟩, ?_, ?_⟩
    · rw [hr.attempt]
      exact htoken
    · rw [hr.attempt]
      exact hkey
    · rw [hr.id]
      exact Nat.lt_succ_of_lt hpast
  · rw [step_db]
    obtain ⟨i, htoken, hdrawn⟩ := hspawn.token
    refine ⟨⟨hspawn.worked, rfl⟩, ⟨_, htoken, Ledger.minted_fresh hdrawn⟩, ?_, Nat.lt_succ_self _⟩
    have hkeys := he.keysMatch hs h.keys
    rw [step_db] at hkeys
    exact (hkeys x hspawn.mem).2

variable {db : Db}

section
variable (h : s.Known)
include h

theorem staffed_ids {es : List Execution} (hst : s.Staffed db es) :
    Table.Keyed Execution.id es := by
  cases hst with
  | same => exact h.executionIds
  | join x now _ => exact h.executionIds.concat fun e he => (h.execution e he).past.ne
  | resume e e' _ _ => exact h.executionIds.put e'
  | leave id => exact h.executionIds.filter _

theorem staffed_leases {es : List Execution} (hst : s.Staffed db es) :
    Table.Keyed (fun e => e.attempt.token) es := by
  cases hst with
  | same => exact h.leases
  | join x now hspawn =>
    obtain ⟨i, htoken, -⟩ := hspawn.token
    refine h.leases.concat fun e he => ?_
    rw [htoken]
    exact h.token_ne i e he
  | resume e e' he hr =>
    exact h.leases.put_column h.executionIds he hr.id (congrArg TransferAttempt.token hr.attempt)
  | leave id => exact h.leases.filter _

theorem step_put (a : Action) :
    ∀ p ∈ (s.step env a).puts, p.Known (s.step env a).db.ledger (s.step env a).tick := by
  have hs := h.regular.accounted.toSound
  have hle := (step_effect env hs h.linked a).minted_le hs
  intro p' hp'
  rcases (s.act_rest env a).puts.mem hp' with ⟨p, hp, hid, hh, -⟩ | ⟨hid, hmarked⟩
  · obtain ⟨⟨part, i, htoken, hminted⟩, hkey, hpast⟩ := h.put p hp
    refine ⟨⟨part, i, ?_, hminted.mono hle⟩, ?_, ?_⟩
    · rw [hh]
      exact htoken
    · rw [hh]
      exact hkey
    · rw [hid]
      exact Nat.lt_succ_of_lt hpast
  · rw [step_db]
    obtain ⟨part, htoken⟩ := hmarked.token
    refine ⟨⟨part, _, htoken, Ledger.minted_fresh hmarked.drawn⟩, hmarked.key, ?_⟩
    rw [hid]
    exact Nat.lt_succ_self _

theorem queued_ids {ps : List Put} (hq : s.Queued db ps) : Table.Keyed Put.id ps := by
  cases hq with
  | same => exact h.putIds
  | join p hid _ =>
    refine h.putIds.concat fun x hx => ?_
    rw [hid]
    exact (h.put x hx).past.ne
  | resume p p' _ _ _ _ => exact h.putIds.put p'
  | leave id => exact h.putIds.filter _

theorem queued_markers {ps : List Put} (hq : s.Queued db ps) :
    Table.Keyed (fun p => p.handle.token) ps := by
  cases hq with
  | same => exact h.markers
  | join p hid hmarked =>
    obtain ⟨part, htoken⟩ := hmarked.token
    refine h.markers.concat fun x hx => ?_
    rw [htoken]
    exact h.marker_ne part 0 x hx
  | resume p p' hp hid hh _ =>
    exact h.markers.put_column h.putIds hp hid (congrArg GatewayPutHandle.token hh)
  | leave id => exact h.markers.filter _

theorem made {c : Call} (hm : s.Makes c) :
    c.key.attemptId = c.attemptId ∧ ∃ t, c.token = some t ∧ Drawn s.db.ledger t := by
  cases hm with
  | execution e he _ _ hid hkey ht =>
    obtain ⟨-, ⟨i, htoken, hminted⟩, hek, -⟩ := h.execution e he
    exact ⟨by rw [hkey, hid, hek], .lease i, ht.trans htoken, hminted⟩
  | put p hp _ _ hid hkey ht =>
    obtain ⟨⟨part, i, htoken, hminted⟩, hpk, -⟩ := h.put p hp
    refine ⟨by rw [hkey, hid, hpk], .gatewayPut part i, ?_, hminted⟩
    rw [ht, htoken]

theorem step_call (a : Action) :
    ∀ c ∈ (s.step env a).calls, c.Known (s.step env a).db.ledger (s.step env a).tick := by
  have hs := h.regular.accounted.toSound
  have hle := (step_effect env hs h.linked a).minted_le hs
  have hold : ∀ c ∈ s.calls, c.Known (s.step env a).db.ledger (s.step env a).tick := by
    intro c hc
    obtain ⟨hkey, ⟨t, ht, hdrawn⟩, hstarted, hended⟩ := h.call c hc
    exact ⟨hkey, ⟨t, ht, hdrawn.mono hle⟩, Nat.lt_succ_of_lt hstarted,
      fun u hu => Nat.lt_succ_of_lt (hended u hu)⟩
  intro c' hc'
  have hlogged : s.Logged (s.step env a).calls := (s.act_rest env a).calls
  generalize (s.step env a).calls = calls at hc' hlogged
  cases hlogged with
  | same => exact hold c' hc'
  | start c hid hstart hend hm =>
    rcases Table.mem_concat.mp hc' with hc' | rfl
    · exact hold c' hc'
    · obtain ⟨hkey, t, ht, hdrawn⟩ := h.made hm
      refine ⟨hkey, ⟨t, ht, hdrawn.mono hle⟩, ?_, fun u hu => ?_⟩
      · rw [hstart]
        exact Nat.lt_succ_self _
      · rw [hend] at hu
        simp at hu
  | stop id =>
    obtain ⟨c, hc, ⟨rfl, -⟩ | ⟨rfl, -, -⟩⟩ := mem_endCall hc'
    · exact hold c' hc
    · obtain ⟨hkey, hnamed, hstarted, -⟩ := hold c hc
      refine ⟨hkey, hnamed, hstarted, fun u hu => ?_⟩
      rw [← Option.some.inj hu]
      exact Nat.lt_succ_self _

end

end Sys.Known

/-! ### Transactions that take a token out -/

/-- Behind the barrier a commit leads to `cleaned`. -/
theorem Follows.of_barred {s s' : TransferState} (h : Follows s s') (hs : s.barred) :
    s' = .cleaned := by
  cases h with
  | cleaned => rfl
  | failed _ hf => rcases hf with rfl | rfl | rfl <;> simp [TransferState.barred] at hs
  | _ => simp [TransferState.barred] at hs

namespace Execution

variable {e : Execution} {x : TransferAttempt}

/-- An execution commits when its call, if it made one, has ended for certain. -/
structure Commits (e : Execution) (o : Outcome) : Prop where
  resolved : e.resolved = true
  idle : ∀ c, e.phase ≠ .calling c
  late : e.phase.early = false
  follows : Follows e.attempt.state o.state
  answered : o.state = .cleaned → ∃ c, e.phase = .returned c o

theorem transaction_commit {o : Outcome} (hc : e.Coherent)
    (h : e.transaction = some (.commit x o)) : e.Commits o := by
  have hphase := hc.phase
  have hfailed : e.attempt.state ≠ .cleanup → Follows e.attempt.state .failed := by
    intro hne
    rcases hc.worked with hs | hs | hs | hs
    · exact .failed _ (Or.inl hs)
    · exact .failed _ (Or.inr (Or.inl hs))
    · exact .failed _ (Or.inr (Or.inr hs))
    · exact absurd hs hne
  unfold transaction at h
  cases hp : e.phase with
  | overdue =>
    rw [hp] at h hphase
    cases h
    exact ⟨hphase.1, by simp [hp], by simp [hp, Phase.early],
      hfailed hphase.2, by simp [Outcome.state]⟩
  | returned c o' =>
    rw [hp] at h hphase
    cases h
    exact ⟨hphase.1, by simp [hp], by simp [hp, Phase.early], hphase.2, fun _ => ⟨c, hp⟩⟩
  | handling f =>
    rw [hp] at h hphase
    dsimp only at h
    have hcertain : f.uncertain = false → e.resolved = true := by
      intro hf
      rw [show e.resolved = !f.uncertain from hphase, hf]
      rfl
    split_ifs at h with h1 h2
    · cases h
      refine ⟨hcertain (by rw [h1.1]; rfl), by simp [hp], by simp [hp, Phase.early],
        ?_, by simp [Outcome.state]⟩
      rw [h1.2]
      exact .rejected
    · simp at h
    · cases h
      obtain ⟨hretry, hne⟩ := not_or.mp h2
      -- What is not retried is known to have ended.
      have hf : f.uncertain = false := by
        cases f <;> simp [StorageFailure.retryable, StorageFailure.uncertain] at hretry ⊢
      exact ⟨hcertain hf, by simp [hp], by simp [hp, Phase.early],
        hfailed hne, by simp [Outcome.state]⟩
  | _ => rw [hp] at h; simp at h

theorem transaction_settle (h : e.transaction = some (.settleMutation x)) :
    e.phase = .settling := by
  unfold transaction at h
  cases hp : e.phase with
  | settling => rfl
  | handling f =>
    rw [hp] at h
    dsimp only at h
    split_ifs at h <;> simp at h
  | _ => rw [hp] at h; simp at h

end Execution

namespace Sys

variable {s : Sys} {a : Action}

theorem allowance_cases (s : Sys) (a : Action) : s.allowance a = nothing ∨
    ∃ tx clock, s.transaction a = some (tx, clock) ∧ s.allowance a = tx.allowance := by
  unfold allowance
  cases htx : s.transaction a with
  | none => exact Or.inl rfl
  | some tx => exact Or.inr ⟨tx.1, tx.2, rfl, rfl⟩

theorem transaction_finishPut {handle : GatewayPutHandle} {clock : Clock}
    (h : s.transaction a = some (.finishPut handle, clock)) :
    ∃ p ∈ s.puts, p.phase = .ended ∧ p.handle = handle := by
  cases a with
  | finishPut id clock' =>
    simp only [transaction, Option.bind_eq_some_iff, Option.ite_none_right_eq_some,
      Option.some.injEq, Prod.mk.injEq, Tx.finishPut.injEq] at h
    obtain ⟨p, hp, hph, hh, -⟩ := h
    exact ⟨p, put_mem hp, hph, hh⟩
  | next id clock' =>
    simp only [transaction, Option.bind_eq_some_iff, Option.map_eq_some_iff, Prod.mk.injEq] at h
    obtain ⟨e, -, tx, htx, rfl, -⟩ := h
    simpa [Tx.snapshot] using Execution.transaction_kind htx
  | _ => simp [transaction, Option.bind_eq_some_iff] at h

theorem transaction_repair {ids : List Id} {clock : Clock}
    (h : s.transaction a = some (.repairMutations ids true true, clock)) :
    a = .repair ids true true clock := by
  cases a with
  | repair ids' stopped quiesced clock' =>
    simp only [transaction, Option.some.injEq, Prod.mk.injEq, Tx.repairMutations.injEq] at h
    obtain ⟨⟨rfl, rfl, rfl⟩, rfl⟩ := h
    rfl
  | next id clock' =>
    simp only [transaction, Option.bind_eq_some_iff, Option.map_eq_some_iff, Prod.mk.injEq] at h
    obtain ⟨e, -, tx, htx, rfl, -⟩ := h
    simpa [Tx.snapshot] using Execution.transaction_kind htx
  | _ => simp [transaction, Option.bind_eq_some_iff] at h

theorem transaction_prune {rows : Transfers.Selection} {clock : Clock}
    (h : s.transaction a = some (.prune rows, clock)) :
    ∃ i p, a = .prune i clock ∧ s.pruning i = some p ∧ p.rows = rows := by
  cases a with
  | prune i clock' =>
    simp only [transaction, Option.map_eq_some_iff, Prod.mk.injEq, Tx.prune.injEq] at h
    obtain ⟨p, hp, hrows, rfl⟩ := h
    exact ⟨i, p, rfl, hp, hrows⟩
  | next id clock' =>
    simp only [transaction, Option.bind_eq_some_iff, Option.map_eq_some_iff, Prod.mk.injEq] at h
    obtain ⟨e, -, tx, htx, rfl, -⟩ := h
    simpa [Tx.snapshot] using Execution.transaction_kind htx
  | _ => simp [transaction, Option.bind_eq_some_iff] at h

/-- The participant whose token a step takes out has no call in progress. -/
inductive Drops (s : Sys) (id : Id) (t : Token) : Prop
  | put (p : Put) (hp : p ∈ s.puts) (hph : p.phase = .ended) (ht : t = p.handle.token)
  | execution (e : Execution) (he : e ∈ s.executions) (hr : e.resolved = true)
    (hidle : ∀ c, e.phase ≠ .calling c)
    (hlate : e.phase.early = false) (ht : e.attempt.token = some t)

/-- A commit of a step is one of an execution that has its outcome. -/
theorem Known.advanced (h : s.Known) {id : Id} {st st' : TransferState}
    (hw : (s.allowance a).advance id st st') :
    ∃ i clock e o, a = .next i clock ∧ s.execution i = some e ∧ e.Commits o ∧ id = e.attempt.id ∧
    st = e.attempt.state ∧ st' = o.state := by
  rcases s.allowance_cases a with hn | ⟨tx, clock, htx, hallow⟩
  · rw [hn] at hw
    exact hw.elim
  · rw [hallow] at hw
    cases tx with
    | commit x o =>
      obtain ⟨i, e, ha, he, hetx, rfl⟩ := transaction_snapshot htx rfl
      have hcommits := Execution.transaction_commit (h.execution e (execution_mem he)).coherent hetx
      exact ⟨i, clock, e, o, ha, he, hcommits, hw⟩
    | _ => exact hw.elim

/-- An attempt behind the barrier without markers stays there, whatever an operator repairs. -/
theorem Known.barrier_kept (env : Env) (h : s.Known) (a : Action) {id : Id}
    (hm : s.db.ledger.Minted id) (hb : s.db.ledger.Barrier id) :
    (s.step env a).db.ledger.Barrier id := by
  have hs := h.regular.accounted.toSound
  refine (step_effect env hs h.linked a).barrier hs hm (fun st st' hw hbar => ?_) hb
  obtain ⟨_, _, _, _, -, -, hcommits, -, rfl, rfl⟩ := h.advanced hw
  exact hcommits.follows.of_barred hbar

theorem Known.step_selected (env : Env) (h : s.Known) (a : Action) : ∀ p ∈ (s.step env a).prunings,
    ∀ id ∈ p.rows.attempts, (s.step env a).db.ledger.Minted id ∧
      (s.step env a).db.ledger.Barrier id := by
  intro p hp id hid
  have hs := h.regular.accounted.toSound
  have he := step_effect env hs h.linked a
  rcases (s.act_rest env a).prunings hp with hp | hnew
  · obtain ⟨hm, hb⟩ := h.selected p hp id hid
    exact ⟨hm.mono (he.minted_le hs), h.barrier_kept env a hm hb⟩
  · have hsound := he.sound hs
    obtain ⟨x, hx, rfl, hclean, h0⟩ := hnew id hid
    rw [← step_db] at hx
    refine ⟨hsound.mintedAttempts x hx, fun y hy hyx => ?_⟩
    rw [hsound.attempts.eq_of_key_eq hy hx hyx]
    exact ⟨Or.inr hclean, h0⟩

/-- **Tokens, identifiers and keys stay those of one participant.** -/
theorem Known.step (env : Env) (h : s.Known) (a : Action) : (s.step env a).Known where
  toSteady := h.toSteady.step env a
  keys := (step_effect env h.regular.accounted.toSound h.linked a).keysMatch
    h.regular.accounted.toSound h.keys
  execution := h.step_execution env a
  executionIds := h.staffed_ids (s.act_rest env a).executions
  leases := h.staffed_leases (s.act_rest env a).executions
  put := h.step_put env a
  putIds := h.queued_ids (s.act_rest env a).puts
  markers := h.queued_markers (s.act_rest env a).puts
  call := h.step_call env a
  selected := h.step_selected env a

theorem Known.dropped (h : s.Known) {id : Id} {t : Token} (hd : (s.allowance a).drop id t) :
    s.Drops id t := by
  rcases s.allowance_cases a with hw | ⟨tx, clock, htx, hw⟩
  · rw [hw] at hd
    exact hd.elim
  · rw [hw] at hd
    cases tx with
    | finishPut handle =>
      obtain ⟨p, hp, hph, rfl⟩ := transaction_finishPut htx
      exact .put p hp hph hd.2
    | commit x o =>
      obtain ⟨id, e, -, he, hetx, rfl⟩ := transaction_snapshot htx rfl
      have hcommits := Execution.transaction_commit (h.execution e (execution_mem he)).coherent hetx
      exact .execution e (execution_mem he) hcommits.resolved hcommits.idle hcommits.late hd.2
    | settleMutation x =>
      obtain ⟨id, e, -, he, hetx, rfl⟩ := transaction_snapshot htx rfl
      have hp := Execution.transaction_settle hetx
      have hr := (h.execution e (execution_mem he)).coherent.phase
      rw [hp] at hr
      exact .execution e (execution_mem he) hr (by simp [hp]) (by simp [hp, Phase.early]) hd.2
    | _ => exact hd.elim

end Sys

/-! ### Tokens in use -/

/-- The call can write to its key, and it has not ended. -/
def Call.Writing (c : Call) : Prop := c.kind.mutating = true ∧ c.endedAt = none

instance (c : Call) : Decidable c.Writing := inferInstanceAs (Decidable (_ ∧ _))

namespace Sys

/-- The participant that needs the token in the ledger of the attempt: a call in progress, or
one that is still to come. -/
inductive Uses (s : Sys) (id : Id) (t : Token) : Prop
  | call (c : Call) (hc : c ∈ s.calls) (hw : c.Writing) (hid : c.attemptId = id)
    (ht : c.token = some t)
  | execution (e : Execution) (he : e ∈ s.executions) (hm : e.mutating = true)
    (hp : e.phase.early = true)
    (hid : e.attempt.id = id) (ht : e.attempt.token = some t)
  | put (p : Put) (hp : p ∈ s.puts) (hph : p.phase.early = true) (hid : p.handle.attemptId = id)
    (ht : p.handle.token = t)

structure Guarded (s : Sys) : Prop extends Known s where
  held : ∀ id t, s.Uses id t → s.db.ledger.Held id t
  /-- A call in progress is the one its execution waits for, or its execution knows that it may
  be in progress. -/
  running : ∀ e ∈ s.executions, ∀ c ∈ s.calls, c.Writing → c.token = e.attempt.token →
    e.resolved = false ∨ e.phase = .calling c.id
  putting : ∀ p ∈ s.puts, ∀ c ∈ s.calls, c.Writing → c.token = some p.handle.token →
    p.phase = .calling c.id

/-- Nothing is in progress for the attempt: no process works on it, and the provider carries
out no call that can write to its key. -/
structure Quiet (s : Sys) (id : Id) : Prop where
  executions : ∀ e ∈ s.executions, e.attempt.id ≠ id
  puts : ∀ p ∈ s.puts, p.handle.attemptId ≠ id
  calls : ∀ c ∈ s.calls, c.attemptId = id → ¬ c.Writing

instance (s : Sys) (id : Id) : Decidable (s.Quiet id) :=
  decidable_of_iff ((∀ e ∈ s.executions, e.attempt.id ≠ id) ∧
    (∀ p ∈ s.puts, p.handle.attemptId ≠ id) ∧ ∀ c ∈ s.calls, c.attemptId = id → ¬ c.Writing)
    ⟨fun h => ⟨h.1, h.2.1, h.2.2⟩, fun h => ⟨h.executions, h.puts, h.calls⟩⟩

end Sys

/-- The attempts that an operator repairs, with both assertions made. -/
def Action.repaired : Action → List Id
  | .repair ids true true _ => ids
  | _ => []

/-- The assertions that the operator makes with a repair are true. -/
def Sys.RepairsQuiet (s : Sys) (a : Action) : Prop := ∀ id ∈ a.repaired, s.Quiet id

instance (s : Sys) (a : Action) : Decidable (s.RepairsQuiet a) :=
  inferInstanceAs (Decidable (∀ id ∈ a.repaired, s.Quiet id))

namespace Sys

variable {s : Sys} {a : Action}

theorem allowance_repair {id : Id} (h : (s.allowance a).repair id) : id ∈ a.repaired := by
  rcases s.allowance_cases a with hw | ⟨tx, clock, htx, hw⟩
  · rw [hw] at h
    exact h.elim
  · rw [hw] at h
    cases tx with
    | repairMutations ids stopped quiesced =>
      obtain ⟨rfl, rfl, hid⟩ := h
      exact transaction_repair htx ▸ hid
    | _ => exact h.elim

/-- The ledger after the deletions of a `prune`. -/
theorem step_prune (env : Env) {i : Nat} {clock : Clock} {p : Pruning} (hp : s.pruning i = some p) :
    (s.step env (.prune i clock)).db.ledger =
      { s.db.ledger with
        attempts := s.db.ledger.attempts.filter fun x => x.id ∉ p.rows.attempts } := by
  simp [step, act, hp, Transfers.prune.delete]

/-- Only `prune` deletes rows whatever they say, those that it has selected. -/
theorem allowance_forget {id : Id} (h : (s.allowance a).forget id) :
    ∃ i clock, ∃ p ∈ s.prunings, a = .prune i clock ∧ s.pruning i = some p ∧
      id ∈ p.rows.attempts := by
  rcases s.allowance_cases a with hw | ⟨tx, clock, htx, hw⟩
  · rw [hw] at h
    exact h.elim
  · rw [hw] at h
    cases tx with
    | prune rows =>
      obtain ⟨i, p, ha, hp, rfl⟩ := transaction_prune htx
      exact ⟨i, clock, p, (Table.get_mem hp).1, ha, hp, h⟩
    | _ => exact h.elim

/-- Who makes a call that can write has its token in the ledger. -/
theorem Makes.uses {c : Call} (hm : s.Makes c) (hk : c.kind.mutating = true) {t : Token}
    (ht : c.token = some t) :
    s.Uses c.attemptId t := by
  cases hm with
  | execution e he hp hkind hid _ het =>
    -- Of the calls of an execution, `start` and `complete` can write.
    have hmut : e.mutating = true := by
      unfold Execution.mutating
      cases hs : e.attempt.state <;> rw [hs] at hkind <;> simp [callKind] at hkind ⊢ <;>
        simp [← hkind, CallKind.mutating] at hk
    exact .execution e he hmut (by rw [hp]; rfl) hid.symm (het.symm.trans ht)
  | put p hp hph _ hid _ hpt =>
    exact .put p hp (by rw [hph]; rfl) hid.symm (Option.some.inj (hpt.symm.trans ht))

namespace Guarded

variable {id : Id} {t : Token} {db : Db} {s' : Sys}

/-- A token in use is not taken out. -/
theorem not_dropped (h : s.Guarded) (hu : s.Uses id t) : ¬ (s.allowance a).drop id t := by
  intro hd
  cases h.dropped hd with
  | put p hp hph ht =>
    cases hu with
    | call c hc hw _ hct =>
      have := h.putting p hp c hc hw (hct.trans (congrArg some ht))
      simp [hph] at this
    | execution e he _ _ _ het => exact h.lease_ne_marker he hp (het.trans (congrArg some ht))
    | put p' hp' hph' _ hpt =>
      obtain rfl : p' = p := h.markers.eq_of_key_eq hp' hp (hpt.trans ht)
      simp [hph, PutPhase.early] at hph'
  | execution e he hr hidle hlate ht =>
    cases hu with
    | call c hc hw _ hct =>
      rcases h.running e he c hc hw (hct.trans ht.symm) with hf | hp
      · simp [hr] at hf
      · exact hidle c.id hp
    | execution e' he' _ hp _ het =>
      obtain rfl : e' = e := h.leases.eq_of_key_eq he' he (het.trans ht.symm)
      simp [hlate] at hp
    | put p hp _ _ hpt => exact h.lease_ne_marker he hp (ht.trans (congrArg some hpt.symm))

theorem not_repaired (hq : s.RepairsQuiet a) (hu : s.Uses id t) : ¬ (s.allowance a).repair id := by
  intro hr
  have hquiet := hq id (allowance_repair hr)
  cases hu with
  | call c hc hw hid _ => exact hquiet.calls c hc hid hw
  | execution e he _ _ hid _ => exact hquiet.executions e he hid
  | put p hp _ hid _ => exact hquiet.puts p hp hid

variable (env : Env)

/-- A token in use before a step is still in the ledger after it. -/
theorem held_step (h : s.Guarded) (hq : s.RepairsQuiet a) (hu : s.Uses id t) :
    (s.step env a).db.ledger.Held id t := by
  have hs := h.regular.accounted.toSound
  have hf : ¬ (s.allowance a).forget id := by
    intro hf
    obtain ⟨_, _, p, hp, -, -, hid⟩ := allowance_forget hf
    exact (h.held id t hu).not_barrier (h.selected p hp id hid).2
  exact (step_effect env hs h.linked a).held hs (h.not_dropped hu) (not_repaired hq hu) hf
    (h.held id t hu)

/-- A token in use after a step was in use before it, or the transaction has put it there. -/
theorem uses_rest (hr : s.Rest db s') (hu : s'.Uses id t) : s.Uses id t ∨ db.ledger.Held id t := by
  cases hu with
  | call c' hc' hw hid ht =>
    have hlogged := hr.calls
    generalize s'.calls = calls at hc' hlogged
    cases hlogged with
    | same => exact Or.inl (.call c' hc' hw hid ht)
    | start c _ _ _ hm =>
      rcases Table.mem_concat.mp hc' with hc' | rfl
      · exact Or.inl (.call c' hc' hw hid ht)
      · exact Or.inl (hid ▸ hm.uses hw.1 ht)
    | stop i =>
      obtain ⟨c, hc, ⟨rfl, -⟩ | ⟨rfl, -, -⟩⟩ := mem_endCall hc'
      · exact Or.inl (.call c' hc hw hid ht)
      · simp [Call.Writing] at hw
  | execution e' he' hm hp hid ht =>
    rcases hr.executions.mem he' with ⟨e, he, hres⟩ | ⟨x, now, hspawn, rfl⟩
    · refine Or.inl (.execution e he ?_ (hres.early hp) ?_ ?_)
      · unfold Execution.mutating at hm ⊢
        rwa [hres.attempt] at hm
      · rwa [hres.attempt] at hid
      · rwa [hres.attempt] at ht
    · refine Or.inr ⟨x, hspawn.mem, hid, hspawn.marked ?_ t ht⟩
      simpa [Execution.mutating] using hm
  | put p' hp' hph hid ht =>
    rcases hr.puts.mem hp' with ⟨p, hp, -, hh, hearly⟩ | ⟨-, hmarked⟩
    · refine Or.inl (.put p hp (hearly hph) ?_ ?_)
      · rwa [hh] at hid
      · rwa [hh] at ht
    · obtain ⟨x, hx, hxid, hxt⟩ := hmarked.row
      exact Or.inr ⟨x, hx, hxid.trans hid, ht ▸ hxt⟩

/-- A call that is still in progress after another one ended. -/
theorem writing_endCall {id : Nat} {c' : Call} (h : c' ∈ (s.endCall id).calls) (hw : c'.Writing) :
    c' ∈ s.calls ∧ c'.id ≠ id := by
  obtain ⟨c, hc, ⟨rfl, hne⟩ | ⟨rfl, -, -⟩⟩ := mem_endCall h
  · exact ⟨hc, fun hid => hne hid hw.2⟩
  · simp [Call.Writing] at hw

theorem running_rest (h : s.Guarded) (hr : s.Rest db s') : ∀ e' ∈ s'.executions,
    ∀ c' ∈ s'.calls, c'.Writing → c'.token = e'.attempt.token → e'.resolved = false ∨
      e'.phase = .calling c'.id := by
  intro e' he' c' hc' hw ht
  -- An execution in its call is not yet in doubt about it.
  have hcalling : ∀ e ∈ s.executions, ∀ c, e.phase = .calling c → e.resolved = true := by
    intro e he c hp
    have := (h.execution e he).coherent.phase
    rwa [hp] at this
  -- The call that just ended was the only one in progress under its lease.
  have hended : ∀ e ∈ s.executions, ∀ c, e.phase = .calling c → c' ∈ (s.endCall c).calls →
      c'.token = e.attempt.token → False := by
    intro e he c hp hmem het
    obtain ⟨hmem, hne⟩ := writing_endCall hmem hw
    rcases h.running e he c' hmem hw het with hf | hph
    · simp [hcalling e he c hp] at hf
    · rw [hp] at hph
      exact hne (Phase.calling.inj hph).symm
  cases hr with
  | spawn x now hspawn =>
    rcases List.mem_append.mp he' with he' | he'
    · exact h.running e' he' c' hc' hw ht
    · obtain ⟨i, htoken, -⟩ := hspawn.token
      rw [List.mem_singleton.mp he'] at ht
      exact absurd (ht.trans htoken) ((h.call_token_ne hc').1 i)
  | go e x he hgo =>
    rcases Table.of_mem_put he' with ⟨he', -⟩ | rfl
    · exact h.running e' he' c' hc' hw ht
    · left
      rcases h.running e he c' hc' hw
        (ht.trans (congrArg TransferAttempt.token hgo.attempt)) with hf | hp
      · by_contra htrue
        simp [hgo.resolved (h.execution e he).coherent (by simpa using htrue)] at hf
      · exact hgo.calling _ hp
  | leave id => exact h.running e' (List.mem_filter.mp he').1 c' hc' hw ht
  | begin e kind he hp _ =>
    have hdue : e.resolved = true := by
      have := (h.execution e he).coherent.phase
      rwa [hp] at this
    rcases Table.of_mem_put he' with ⟨he', hne⟩ | rfl <;>
      rcases List.mem_append.mp hc' with hc' | hc'
    · exact h.running e' he' c' hc' hw ht
    · -- The new call is made under the lease of `e`, not of another execution.
      rw [List.mem_singleton.mp hc'] at ht
      exact absurd (congrArg Execution.id (h.leases.eq_of_key_eq he' he ht.symm)) hne
    · rcases h.running e he c' hc' hw ht with hf | hph
      · simp [hdue] at hf
      · simp [hp] at hph
    · rw [List.mem_singleton.mp hc']
      exact Or.inr rfl
  | answer e c o he hp _ =>
    rcases Table.of_mem_put he' with ⟨he', -⟩ | rfl
    · exact h.running e' he' c' (writing_endCall hc' hw).1 hw ht
    · exact (hended e he c hp hc' ht).elim
  | fail e c f he hp =>
    cases hf : f.uncertain with
    | true =>
      simp only [hf, if_true] at he' hc'
      rcases Table.of_mem_put he' with ⟨he', -⟩ | rfl
      · exact h.running e' he' c' hc' hw ht
      · exact Or.inl rfl
    | false =>
      simp only [hf, Bool.false_eq_true, if_false] at he' hc'
      rcases Table.of_mem_put he' with ⟨he', -⟩ | rfl
      · exact h.running e' he' c' (writing_endCall hc' hw).1 hw ht
      · exact (hended e he c hp hc' ht).elim
  | callEnds c | putEnds p c _ _ => exact h.running e' he' c' (writing_endCall hc' hw).1 hw ht
  | startPut p hp _ =>
    rcases Table.mem_concat.mp hc' with hc' | rfl
    · exact h.running e' he' c' hc' hw ht
    · exact absurd ht.symm (h.lease_ne_marker he' hp)
  | _ => exact h.running e' he' c' hc' hw ht

theorem putting_rest (h : s.Guarded) (hr : s.Rest db s') : ∀ p' ∈ s'.puts, ∀ c' ∈ s'.calls,
    c'.Writing → c'.token = some p'.handle.token → p'.phase = .calling c'.id := by
  intro p' hp' c' hc' hw ht
  cases hr with
  | begin e kind he _ _ =>
    rcases Table.mem_concat.mp hc' with hc' | rfl
    · exact h.putting p' hp' c' hc' hw ht
    · exact absurd ht (h.lease_ne_marker he hp')
  | answer e c o _ _ _ | callEnds c => exact h.putting p' hp' c' (writing_endCall hc' hw).1 hw ht
  | fail e c f _ _ =>
    cases hf : f.uncertain with
    | true =>
      simp only [hf, if_true] at hp' hc'
      exact h.putting p' hp' c' hc' hw ht
    | false =>
      simp only [hf, Bool.false_eq_true, if_false] at hp' hc'
      exact h.putting p' hp' c' (writing_endCall hc' hw).1 hw ht
  | admitPut p _ _ hmarked =>
    rcases List.mem_append.mp hp' with hp' | hp'
    · exact h.putting p' hp' c' hc' hw ht
    · obtain ⟨part, htoken⟩ := hmarked.token
      rw [List.mem_singleton.mp hp', htoken] at ht
      exact absurd ht ((h.call_token_ne hc').2 part 0)
  | exposePut p t hp hph _ =>
    rcases Table.of_mem_put hp' with ⟨hp', -⟩ | rfl
    · exact h.putting p' hp' c' hc' hw ht
    · have := h.putting p hp c' hc' hw ht
      simp [hph] at this
  | startPut p hp hph =>
    rcases Table.of_mem_put hp' with ⟨hp', hne⟩ | rfl <;>
      rcases List.mem_append.mp hc' with hc' | hc'
    · exact h.putting p' hp' c' hc' hw ht
    · rw [List.mem_singleton.mp hc'] at ht
      exact absurd (congrArg Put.id (h.markers.eq_of_key_eq hp' hp (Option.some.inj ht).symm)) hne
    · have := h.putting p hp c' hc' hw ht
      simp [hph] at this
    · rw [List.mem_singleton.mp hc']
  | putEnds p c hp hph =>
    obtain ⟨hmem, hne⟩ := writing_endCall hc' hw
    rcases Table.of_mem_put hp' with ⟨hp', -⟩ | rfl
    · exact h.putting p' hp' c' hmem hw ht
    · have := h.putting p hp c' hmem hw ht
      rw [hph] at this
      exact absurd (PutPhase.calling.inj this).symm hne
  | leavePut id => exact h.putting p' (List.mem_filter.mp hp').1 c' hc' hw ht
  | _ => exact h.putting p' hp' c' hc' hw ht

/-- **A call in progress stays marked**, whatever the participants do, as long as repairs are
made when nothing is in progress. -/
theorem step (h : s.Guarded) (hq : s.RepairsQuiet a) : (s.step env a).Guarded where
  toKnown := h.toKnown.step env a
  held id t hu := by
    have hu' : (s.act env a).Uses id t := by
      cases hu with
      | call c hc hw hid ht => exact .call c hc hw hid ht
      | execution e he hm hp hid ht => exact .execution e he hm hp hid ht
      | put p hp hph hid ht => exact .put p hp hph hid ht
    rcases uses_rest (s.act_rest env a) hu' with hu | hheld
    · exact h.held_step env hq hu
    · rw [step_db]
      exact hheld
  running e he c hc := h.running_rest (s.act_rest env a) e he c hc
  putting p hp c hc := h.putting_rest (s.act_rest env a) p hp c hc

theorem created_guarded (spaceId profile : String) (limits : Limits) (creator : Principal)
    (now : Time) :
    (created spaceId profile limits creator now).Guarded where
  toSteady := created_steady spaceId profile limits creator now
  keys := by simp [Ledger.KeysMatch, created, Db.created]
  execution := by simp [created]
  executionIds := by simp [created, Table.Keyed]
  leases := by simp [created, Table.Keyed]
  put := by simp [created]
  putIds := by simp [created, Table.Keyed]
  markers := by simp [created, Table.Keyed]
  call := by simp [created]
  selected := by simp [created]
  held id t hu := by
    cases hu with
    | call c hc _ _ _ => simp [created] at hc
    | execution e he _ _ _ _ => simp [created] at he
    | put p hp _ _ _ => simp [created] at hp
  running := by simp [created]
  putting := by simp [created]

end Guarded

end Sys

end Hf2l.Exchange.Python
