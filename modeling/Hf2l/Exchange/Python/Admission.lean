import Hf2l.Exchange.Python.Steady

/-!
# `Hf2l.Exchange.Python.Admission`: the limits of a space of the Python service

Every execution of a mutating call ends with `_abandon`, which puts a cleaned attempt back
behind the cleanup barrier and charges its attachment again. It does so even if the marker of
the execution was settled long ago and the charge was refunded in the meantime; the bytes can
then belong to another record (`abandon_exceeds_quota`).

`limits_hold_iff` says that this is the only way to exceed a limit: in a run without operator
repairs the limits hold throughout iff every such charge finds room.
-/

set_option autoImplicit false

namespace Hf2l.Exchange.Python

open Lib
open Attempts

/-- The action is an operator's repair. -/
def Action.repairs : Action → Bool
  | .repair _ _ _ _ => true
  | _ => false

/-- The actions of clients, workers, gateways and the storage provider. -/
abbrev Routine : Type := { a : Action // a.repairs = false }

/-- If the step is an `_abandon` that charges an attachment again, there is room for it. -/
def Sys.Roomy (s : Sys) (a : Action) : Prop :=
  ∀ id clock e, a = .next id clock → s.execution id = some e → e.phase = .lost ∨
    e.phase = .abandoning → ∀ b, Recharges s.db.ledger e.attempt b → s.db.ledger.Room b

namespace Sys

/-- The transactions of a step may charge an attachment again only where there is room. -/
def roomy : Allowance := .free .python True Ledger.Room True

/-- An `_abandon` is made at two program points. -/
theorem transaction_abandon {s : Sys} {a : Action} {x : TransferAttempt} {clock : Clock}
    (h : s.transaction a = some (.abandon x, clock)) :
    ∃ id e, a = .next id clock ∧ s.execution id = some e ∧
      (e.phase = .lost ∨ e.phase = .abandoning) ∧ e.attempt = x := by
  obtain ⟨id, e, ha, he, htx, hx⟩ := transaction_snapshot h rfl
  refine ⟨id, e, ha, he, ?_, hx⟩
  unfold Execution.transaction at htx
  split at htx
  case h_3 hp => exact Or.inl hp
  case h_7 hp => exact Or.inr hp
  case h_4 f hp => split_ifs at htx <;> simp at htx
  all_goals simp at htx

/-- A step with room is permitted to do what it does. -/
theorem roomy_permitted {s : Sys} (hl : s.Linked) {a : Action} (ha : a.repairs = false)
    (hroom : s.Roomy a) {tx : Tx} {clock : Clock} (htx : s.transaction a = some (tx, clock)) :
    tx.Permitted roomy s.db.ledger := by
  cases tx with
  | command p c => exact ⟨fun _ _ _ => trivial, fun _ => trivial⟩
  | finishPut handle => trivial
  | commit x o =>
    exact ⟨fun _ => trivial, trivial, fun _ _ => trivial, fun _ => hl.snapshot htx rfl⟩
  | settleMutation x => exact ⟨fun _ _ => trivial, fun _ => hl.snapshot htx rfl⟩
  | abandon x =>
    obtain ⟨id, e, rfl, he, hphase, rfl⟩ := transaction_abandon htx
    exact ⟨fun _ => hl.snapshot htx rfl, hroom id clock e rfl he hphase⟩
  | repairMutations ids stopped quiesced =>
    -- Only a repair action makes this transaction.
    exfalso
    cases a with
    | repair ids' stopped' quiesced' clock' => simp [Action.repairs] at ha
    | next id clock' =>
      simp only [transaction, Option.bind_eq_some_iff, Option.map_eq_some_iff, Prod.mk.injEq] at htx
      obtain ⟨e, -, tx', htx, rfl, -⟩ := htx
      unfold Execution.transaction at htx
      split at htx
      case h_4 f hp => split_ifs at htx <;> simp at htx
      all_goals simp at htx
    | heartbeat id clock' | exposePut id expiry clock' | finishPut id clock' =>
      simp [transaction, Option.bind_eq_some_iff] at htx
    | exposeGrants id expiry expiries clock' | _ => simp [transaction] at htx
  | prune rows => exact fun _ _ => trivial
  | _ => trivial

end Sys

/-- An `_abandon` that charges an attachment again adds its size to the counter. -/
theorem abandon_charges {db : Db} (hs : db.ledger.Sound) {a : TransferAttempt} {b : Blob}
    (h : Recharges db.ledger a b) (clock : Clock) : ∃ db', Transfers.abandon a clock db = .ok db' ∧
      db'.ledger.space =
        { db.ledger.space with reclaiming := db.ledger.space.reclaiming + b.size } := by
  obtain ⟨r, hr, hrid, hterm⟩ := h.stopped
  obtain ⟨x, hx, hxid, hbarred, -⟩ := h.attempt
  have hb : db.ledger.blob a.blobId = some b := by
    rw [← h.id]
    exact hs.blobs.get_eq h.mem
  have hcur : db.ledger.attempt a.id = some x := by
    rw [← hxid]
    exact hs.attempts.get_eq hx
  have hrec : db.ledger.record b.recordId = some r := by
    rw [← hrid]
    exact hs.records.get_eq hr
  have hstate : x.state = .cleanup ∨ x.state = .cleaned := hbarred
  have hrearm : Transfers.rearmCleanup db.ledger b x (clock 0) =
      .ok (db.ledger.rearm r b x (clock 0)) := by
    unfold Transfers.rearmCleanup
    rw [if_pos hstate, hrec]
    rfl
  refine ⟨{ db with ledger := db.ledger.rearm r b x (clock 0) }, ?_, ?_⟩
  · unfold Transfers.abandon
    rw [hb, hcur]
    dsimp only
    rw [hrearm]
    rfl
  · show (db.ledger.rearm r b x (clock 0)).space = _
    unfold Ledger.rearm
    rw [if_pos ⟨hterm, h.uncharged⟩]
    rfl

/-- One routine step keeps the limits iff it has room. -/
theorem Sys.step_within (env : Env) {s : Sys} (h : s.Steady) (hw : s.db.ledger.Within) {a : Action}
    (ha : a.repairs = false) : (s.step env a).db.ledger.Within ↔ s.Roomy a := by
  have hs := h.regular.accounted.toSound
  constructor
  · intro hw' id clock e haction he hphase b hb
    -- The step is the `_abandon` of `e`, and it has raised the counter.
    have htx : e.transaction = some (.abandon e.attempt) := by
      unfold Execution.transaction
      rcases hphase with hp | hp <;> rw [hp]
    obtain ⟨db', hrun, hspace⟩ := abandon_charges hs hb clock
    have hdb : (s.step env a).db = db' := by
      rw [step_db, haction]
      unfold after transaction
      simp only [he, htx, Option.bind, Option.map, Option.elim]
      exact step_ok _ hrun
    have hbytes := hw'.bytes
    rw [hdb, hspace] at hbytes
    unfold Ledger.Room
    simp only at hbytes
    omega
  · intro hroom
    have heffect := step_effect_of env (w := roomy) rfl hs a fun tx clock htx =>
      roomy_permitted h.linked ha hroom htx
    exact heffect.within ReleaseRule.python_lawful trivial (fun _ _ hr => hr) h.regular hw

/-- **In a run without operator repairs the limits of the space hold throughout iff every
`_abandon` that charges an attachment again finds room for it.** -/
theorem limits_hold_iff (env : Env) (spaceId profile : String) (limits : Limits)
    (creator : Principal) (now : Time) (actions : List Routine) :
    Run.Always (fun (s : Sys) (a : Routine) => s.step env a.1) (fun s => s.db.ledger.Within)
      (Sys.created spaceId profile limits creator now) actions ↔
    Run.Every (fun (s : Sys) (a : Routine) => s.step env a.1) (fun s a => s.Roomy a.1)
      (Sys.created spaceId profile limits creator now) actions :=
  Run.always_iff_every (J := Sys.Steady) (fun _ a h => h.step env a.1)
    (fun _ a h hw => Sys.step_within env h hw a.2)
    (Sys.created_steady spaceId profile limits creator now)
    (Db.created_within spaceId profile limits creator now) actions

namespace Sample

open Exchange.Sample

/-- The worker gives the slow upload up at 100 and the owner withdraws the draft at 101. The
call returns at 102 and its marker is settled, but its execution stops before `_abandon`. A
worker cleans the attempt and refunds the charge at 201, and the bytes are admitted again for
a second record. Then the first execution goes on. -/
def abandonedAfterRefund : List Action :=
  uploadStarts ++
    [.process "3" none (still 100), .command owner (.withdrawRecord "1") (still 101),
      .returns 2 (.started "upload"), .next 2 (still 102), .next 2 (still 102), .next 2 (still 102),
      .process "3" none (still 200), .next 11 (still 200), .next 11 (still 200), .call 11,
        .returns 11 .cleaned,
      .next 11 (still 201), createRecord "second" 201, .next 2 (still 202)]

end Sample

/-- **The last transaction of an upload can take a space over its limit of bytes.** -/
theorem abandon_exceeds_quota : (∀ a ∈ Sample.abandonedAfterRefund, a.repairs = false) ∧
      (Sample.start.run Sample.env Sample.abandonedAfterRefund).db.ledger.space.quotaBytes <
        (Sample.start.run Sample.env Sample.abandonedAfterRefund).db.ledger.space.allocated +
          (Sample.start.run Sample.env Sample.abandonedAfterRefund).db.ledger.space.reclaiming := by
  decide +kernel

end Hf2l.Exchange.Python
