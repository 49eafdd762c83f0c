import Hf2l.Exchange.Ledger.Admission
import Hf2l.Exchange.Python.Participants
import Hf2l.Lib.Run

/-!
# `Hf2l.Exchange.Python.Steady`: what holds in every state of the system

`Tx.allowance` is the least that a transaction needs: which attempt it may advance and between
which states, which marker it may drop, which attempts it may repair. Every step of the system
is an effect under the allowance of its transaction (`Sys.step_effect`), once the snapshots
that its executions carry are known to name the attachments of their attempts. `Sys.Steady`
has this and the ledger's own invariants, which no step breaks.
-/

set_option autoImplicit false

namespace Hf2l.Exchange.Python

open Lib
open Attempts

/-! ### The allowance of a transaction -/

namespace Tx

/-- The states between which the transaction takes an attempt. -/
def advances : Tx → Id → TransferState → TransferState → Prop
  | .commit a o, id, s, s' => id = a.id ∧ s = a.state ∧ s' = o.state
  | _, _, _, _ => False

/-- The marker that the transaction takes out of the ledger. -/
def drops : Tx → Id → Token → Prop
  | .finishPut h, id, t => id = h.attemptId ∧ t = h.token
  | .commit a _, id, t | .settleMutation a, id, t => id = a.id ∧ a.token = some t
  | _, _, _ => False

/-- The attempts that the transaction repairs. -/
def repairs : Tx → Id → Prop
  | .repairMutations ids stopped quiesced, id => stopped = true ∧ quiesced = true ∧ id ∈ ids
  | _, _ => False

/-- The attachments that the transaction charges a second time. -/
def recharges : Tx → Ledger → Blob → Prop
  | .abandon a, l, b => Recharges l a b
  | .repairMutations _ _ _, _, _ => True
  | _, _, _ => False

/-- The attempts whose rows the transaction deletes. -/
def forgets : Tx → Id → Prop
  | .prune rows, id => id ∈ rows.attempts
  | _, _ => False

/-- The transaction stops records if it is accepted. -/
def stopping : Tx → Prop
  | .command _ c => c.deed.stops = true
  | .commit _ o => o.state = .failed
  | .expire _ => True
  | _ => False

def allowance (tx : Tx) : Allowance where
  rule := ReleaseRule.python
  matched := True
  amend _ _ _ := True
  advance := tx.advances
  drop := tx.drops
  repair := tx.repairs
  recharge := tx.recharges
  forget := tx.forgets
  stop := tx.stopping

/-- The snapshot that the transaction relies on. -/
def snapshot : Tx → Option TransferAttempt
  | .commit a _ | .settleMutation a | .abandon a => some a
  | _ => none

theorem permitted_allowance {l : Ledger} {tx : Tx} (h : ∀ a, tx.snapshot = some a → Matches l a) :
    tx.Permitted tx.allowance l := by
  cases tx with
  | command p c => exact ⟨fun _ _ _ => trivial, fun h => h⟩
  | finishPut handle => exact ⟨rfl, rfl⟩
  | commit a o => exact ⟨fun h => h, ⟨rfl, rfl, rfl⟩, fun t ht => ⟨rfl, ht⟩, fun _ => h a rfl⟩
  | settleMutation a => exact ⟨fun t ht => ⟨rfl, ht⟩, fun _ => h a rfl⟩
  | abandon a => exact ⟨fun _ => h a rfl, fun b hb => hb⟩
  | repairMutations ids stopped quiesced =>
    exact ⟨fun hs hq id hid => ⟨hs, hq, hid⟩, fun _ _ => trivial⟩
  | prune rows => exact fun id hid => hid
  | _ => trivial

end Tx

/-- Every transaction of an execution is about its snapshot. -/
theorem Execution.transaction_kind {e : Execution} {tx : Tx} (h : e.transaction = some tx) :
    tx.snapshot = some e.attempt ∨ (∃ code, tx = .retry e.attempt code) ∨
      tx = .releaseLease e.attempt := by
  unfold transaction at h
  cases hp : e.phase with
  | handling f =>
    rw [hp] at h
    dsimp only at h
    split_ifs at h <;> cases h
    · exact Or.inl rfl
    · exact Or.inr (Or.inl ⟨_, rfl⟩)
    · exact Or.inl rfl
  | overdue | returned c o | lost | settling | abandoning => rw [hp] at h; cases h; exact Or.inl rfl
  | recovering => rw [hp] at h; cases h; exact Or.inr (Or.inl ⟨_, rfl⟩)
  | releasing => rw [hp] at h; cases h; exact Or.inr (Or.inr rfl)
  | _ => rw [hp] at h; cases h

/-- A step without a transaction may do nothing. -/
def nothing : Allowance where
  rule := ReleaseRule.python
  matched := True
  amend _ _ _ := True
  advance _ _ _ := False
  drop _ _ := False
  repair _ := False
  recharge _ _ := False
  forget _ := False
  stop := False

namespace Sys

variable (env : Env) (s : Sys)

/-- The allowance of a step. -/
def allowance (a : Action) : Allowance := (s.transaction a).elim nothing fun tx => tx.1.allowance

@[simp] theorem allowance_rule (a : Action) : (s.allowance a).rule = ReleaseRule.python := by
  unfold allowance
  cases s.transaction a <;> rfl

theorem allowance_matched (a : Action) : (s.allowance a).matched := by
  unfold allowance
  cases s.transaction a <;> trivial

variable {x : TransferAttempt}

/-- A transaction with a snapshot is one of an execution. -/
theorem transaction_snapshot {s : Sys} {a : Action} {tx : Tx} {clock : Clock}
    (h : s.transaction a = some (tx, clock)) (hx : tx.snapshot = some x) :
    ∃ id e, a = .next id clock ∧ s.execution id = some e ∧ e.transaction = some tx ∧
      e.attempt = x := by
  cases a with
  | next id clock' =>
    simp only [transaction, Option.bind_eq_some_iff, Option.map_eq_some_iff, Prod.mk.injEq] at h
    obtain ⟨e, he, tx', htx, rfl, rfl⟩ := h
    refine ⟨id, e, rfl, he, htx, ?_⟩
    rcases Execution.transaction_kind htx with hs | ⟨code, rfl⟩ | rfl
    · exact Option.some.inj (hs.symm.trans hx)
    · simp [Tx.snapshot] at hx
    · simp [Tx.snapshot] at hx
  | heartbeat id clock' =>
    simp only [transaction, Option.bind_eq_some_iff, Option.ite_none_right_eq_some,
      Option.some.injEq, Prod.mk.injEq] at h
    obtain ⟨e, -, -, rfl, -⟩ := h
    simp [Tx.snapshot] at hx
  | exposeGrants id expiry expiries clock' | prune id clock' =>
    simp only [transaction, Option.map_eq_some_iff, Prod.mk.injEq] at h
    obtain ⟨g, -, rfl, -⟩ := h
    simp [Tx.snapshot] at hx
  | exposePut id expiry clock' | finishPut id clock' =>
    simp only [transaction, Option.bind_eq_some_iff, Option.ite_none_right_eq_some,
      Option.some.injEq, Prod.mk.injEq] at h
    obtain ⟨p, -, -, rfl, -⟩ := h
    simp [Tx.snapshot] at hx
  | call id | returns id result | raise id | crash id | callEnds id
  | signGrants p r b numbers clock' | startPut id | putReturns id certain | dropPut id
  | selectPruned operations attempts clock' =>
    simp [transaction] at h
  | _ =>
    simp only [transaction, Option.some.injEq, Prod.mk.injEq] at h
    obtain ⟨rfl, -⟩ := h
    simp [Tx.snapshot] at hx

/-! ### Every step is an effect -/

/-- The snapshots of the executions name existing or past attempts, and their attachments. -/
def Linked : Prop :=
  ∀ e ∈ s.executions, s.db.ledger.Minted e.attempt.id ∧ Matches s.db.ledger e.attempt

structure Steady : Prop where
  regular : s.db.ledger.Regular
  linked : s.Linked

variable {s}

/-- A step whose transaction is permitted is an effect on the ledger. -/
theorem step_effect_of {w : Allowance} (hrule : w.rule = ReleaseRule.python)
    (hs : s.db.ledger.Sound) (a : Action)
    (hp : ∀ tx clock, s.transaction a = some (tx, clock) → tx.Permitted w s.db.ledger) :
    Effect w s.db.ledger (s.step env a).db.ledger := by
  rw [step_db]
  unfold after
  cases htx : s.transaction a with
  | none => exact .quiet (Changes.refl _)
  | some tx =>
    obtain ⟨tx, clock⟩ := tx
    show Effect w s.db.ledger (Python.step env s.db (tx, clock)).ledger
    cases hrun : tx.run env clock s.db with
    | ok db' =>
      rw [step_ok _ hrun]
      exact Tx.run_effect hrule hs (hp tx clock htx) hrun
    | error x =>
      rw [step_error _ hrun]
      exact .quiet (Changes.refl _)

/-- The snapshot of a transaction names the attachment of its attempt. -/
theorem Linked.snapshot (hl : s.Linked) {a : Action} {tx : Tx} {clock : Clock}
    (htx : s.transaction a = some (tx, clock)) (hx : tx.snapshot = some x) :
    Matches s.db.ledger x := by
  obtain ⟨id, e, -, he, -, rfl⟩ := transaction_snapshot htx hx
  exact (hl e (execution_mem he)).2

/-- **Every step is an effect on the ledger, under the allowance of its transaction.** -/
theorem step_effect (hs : s.db.ledger.Sound) (hl : s.Linked) (a : Action) :
    Effect (s.allowance a) s.db.ledger (s.step env a).db.ledger := by
  refine step_effect_of env (s.allowance_rule a) hs a fun tx clock htx => ?_
  unfold allowance
  rw [htx]
  exact Tx.permitted_allowance fun x hx => hl.snapshot htx hx

/-- A snapshot of an attempt that existed keeps naming its attachment. -/
theorem matches_effect {w : Allowance} {l l' : Ledger} (hs : l.Sound) (he : Effect w l l')
    (hm : l.Minted x.id) (h : Matches l x) : Matches l' x := by
  refine he.every_work (P := fun y => y.id = x.id → y.blobId = x.blobId) hs ?_ ?_ (fun _ hy => hy) h
  · intro m b y hle hi hy
    -- A new attempt has a new identifier.
    exact absurd (hy.symm.trans hi.id) ((hm.mono hle).ne_fresh 0)
  · intro m y z hy hev hz
    obtain ⟨hid, hblob, -⟩ := hev.same
    exact hblob.trans (hy (hid.symm.trans hz))

theorem Steady.step (h : s.Steady) (a : Action) : (s.step env a).Steady := by
  have hsound := h.regular.accounted.toSound
  have he := step_effect env hsound h.linked a
  have hregular :=
    he.regular (by rw [allowance_rule]; exact ReleaseRule.python_lawful) (s.allowance_matched a)
      h.regular
  have hsound' := hregular.accounted.toSound
  refine ⟨hregular, ?_⟩
  intro e' he'
  rcases (s.act_rest env a).executions.mem he' with ⟨e, hem, hresumes⟩ | ⟨x, now, hspawn, rfl⟩
  · obtain ⟨hminted, hmatch⟩ := h.linked e hem
    rw [hresumes.attempt]
    exact ⟨hminted.mono (he.minted_le hsound), matches_effect hsound he hminted hmatch⟩
  · -- The snapshot of a new execution is a row of the ledger.
    have hmem : x ∈ (s.step env a).db.ledger.attempts := by
      rw [step_db]
      exact hspawn.mem
    refine ⟨hsound'.mintedAttempts _ hmem, fun y hy hid => ?_⟩
    rw [hsound'.attempts.eq_of_key_eq hy hmem hid]

theorem created_steady (spaceId profile : String) (limits : Limits) (creator : Principal)
    (now : Time) :
    (created spaceId profile limits creator now).Steady where
  regular := Db.created_regular spaceId profile limits creator now
  linked := by simp [Linked, created]

end Sys

end Hf2l.Exchange.Python
