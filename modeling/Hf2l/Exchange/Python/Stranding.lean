import Hf2l.Exchange.Python.Accounting
import Hf2l.Exchange.Python.Markers

/-!
# `Hf2l.Exchange.Python.Stranding`: charges that no worker can settle

`Service.release` discards an attachment that has no attempt and charges any other. It does
not look whether there is an attempt left to clean. An attachment of a draft can have nothing
but cleaned attempts: a slow `start` call loses its lease, a worker gives the attempt up, and
after the call has ended the attempt is cleaned while the record is still a draft. When such a
record is stopped, its attachment is charged and no worker ever looks at it again.

`prune` selects the rows of cleaned attempts and deletes them later by their identifiers, without
the lock of the space and without another look. An attempt that is put behind the cleanup barrier
again in between, with its attachment charged, is deleted all the same (`charges_stranded` has a
run of each kind).

`charges_stay_open_iff` says that there is no other way: a run keeps an open attempt for every
charge iff none of its steps `Strands` one. What a step stops is read off its transaction and the
state before it (`Sys.step_stops`).
-/

set_option autoImplicit false

namespace Hf2l.Exchange.Python

open Lib Lib.Checked
open Attempts

/-- The attachment has attempts, and all of them are cleaned. -/
def Drained (l : Ledger) (b : Blob) : Prop :=
  l.attemptsOf b.id ≠ [] ∧ ∀ a ∈ l.attemptsOf b.id, a.state = .cleaned

/-- An attempt is open for the Python service iff it is not cleaned. -/
theorem open_python {l : Ledger} {blobId : Id} :
    l.Open ReleaseRule.python blobId ↔ ∃ a ∈ l.attempts, a.blobId = blobId ∧
      a.state ≠ .cleaned := by
  simp [Ledger.Open, ReleaseRule.python]

/-- An attachment of a live record is stuck iff it is drained. -/
theorem stuck_python {l : Ledger} (h : l.Accounted) {r : Record} (hr : r ∈ l.records)
    (hlive : r.state.terminal = false) {b : Blob} (hb : b ∈ l.blobsOf r.id) :
    l.Stuck ReleaseRule.python b ↔ Drained l b := by
  obtain ⟨hbm, hrec⟩ := List.mem_filter.mp hb
  have hlive' := (h.charged b hbm r hr (of_decide_eq_true hrec).symm).live hlive
  -- The attachment is neither charged nor cleaned, so the pass only asks for attempts.
  have hcharges : ReleaseRule.python.charges (l.attemptsOf b.id) b = true ↔
      l.attemptsOf b.id ≠ [] := by
    simp [ReleaseRule.charges, ReleaseRule.python, hlive'.1, hlive'.2]
  have hopen : ¬ l.Open ReleaseRule.python b.id ↔ ∀ a ∈ l.attemptsOf b.id, a.state = .cleaned := by
    rw [Ledger.open_iff_attemptsOf]
    simp [ReleaseRule.python]
  unfold Ledger.Stuck Drained
  rw [hcharges, hopen]

/-! ### The records that a step stops -/

section Stops

variable {env : Env} {clock : Clock} {db db' : Db}

/-- The records that the transaction stops if it is accepted, by the state before it. A retirement
under a known key, and one of a retired space, stops none; neither does a failure that its
execution no longer owns. -/
def Tx.aims (clock : Clock) (db : Db) (r : Record) : Tx → Prop
  | .command _ (.withdrawRecord id) => r.id = id
  | .command p (.retireManagedSpace _ key) => db.operation p.id "space.managed.retire" key = none ∧
      ∃ managed, db.managed = some managed ∧ managed.retiredAt = none
  | .commit a (.failed _) =>
    r.state = .draft ∧ ∃ b current, db.ledger.blob a.blobId = some b ∧ b.recordId = r.id ∧
      db.ledger.attempt a.id = some current ∧ owned current a (clock 0) = true ∧
        current.state = a.state
  | .expire id => r.id = id ∧ r.state = .draft ∧ r.expiresAt ≤ clock 0
  | _ => False

/-- The step stops the record, by its transaction and the state before it. -/
structure Sys.Stops (env : Env) (s : Sys) (a : Action) (r : Record) : Prop where
  mem : r ∈ s.db.ledger.records
  live : r.state.terminal = false
  accepted : ∃ tx clock, s.transaction a = some (tx, clock) ∧ (tx.run env clock s.db).isOk = true ∧
    tx.aims clock s.db r

/-- A ledger that stays as it is stops no record. -/
theorem not_stops_self {l : Ledger} (hs : l.Sound) (r : Record) : ¬ l.Stops l r :=
  Changes.not_stops (w := anything) hs (Changes.refl l) r

theorem stoppedState_terminal (r : Record) : (Service.stoppedState r).terminal = true := by
  unfold Service.stoppedState
  split_ifs <;> rfl

theorem withdraw_stops (hs : db.ledger.Sound) {p : Principal} {id : Id} {response : Response}
    (h : (Command.withdrawRecord id).run dialect env p clock db = .ok (db', response))
    (r : Record) :
    db.ledger.Stops db'.ledger r ↔ r ∈ db.ledger.records ∧ r.state.terminal = false ∧
      r.id = id := by
  have hc : Service.Committed dialect db (.withdraw id) db' := Command.run_committed _ h
  cases hc with
  | idle hk _ => simp at hk
  | withdraw x now hx _ _ hsame =>
    rw [hsame.ledger]
    refine (dialect.rule.stop_stops hs (fun y hy => List.mem_singleton.mp hy ▸ hx)
      (by simp [Table.Keyed]) stoppedState_terminal now r).trans ?_
    rw [List.mem_singleton]
    constructor
    · rintro ⟨rfl, hlive⟩
      exact ⟨hx, hlive, rfl⟩
    · rintro ⟨hr, hlive, hid⟩
      exact ⟨hs.records.eq_of_key_eq hr hx hid, hlive⟩

theorem retire_stops (hs : db.ledger.Sound) {p : Principal} {jobId key : String}
    {response : Response}
    (h : (Command.retireManagedSpace jobId key).run dialect env p clock db = .ok (db', response))
    (r : Record) :
    db.ledger.Stops db'.ledger r ↔ r ∈ db.ledger.records ∧ r.state.terminal = false ∧
      db.operation p.id "space.managed.retire" key = none ∧
        ∃ managed, db.managed = some managed ∧ managed.retiredAt = none := by
  simp only [Command.run, Service.retireManagedSpace, block_ok, found_ok] at h
  obtain ⟨-, -, member, -, -, managed, hmanaged, -, h⟩ := h
  rcases Service.once_cases h with ⟨o, ho, -, rfl, -⟩ | ⟨ho, db₁, h₁, rfl⟩
  · simp [not_stops_self hs, ho]
  · simp only [Service.retireManagedSpace.retire, block_ok] at h₁
    obtain ⟨-, h₁⟩ := h₁
    split at h₁
    · rename_i hretired
      obtain rfl := fst_ok h₁
      refine iff_of_false (not_stops_self hs r) ?_
      rintro ⟨-, -, -, m, hm, hnone⟩
      obtain rfl := Option.some.inj (hm.symm.trans hmanaged)
      simp [hnone] at hretired
    · rename_i hopen
      obtain rfl := fst_ok h₁
      have hiff := dialect.rule.stop_stops hs (fun _ hx => hx)
        hs.records stoppedState_terminal (clock 2) r
      refine (Eq.to_iff (congrArg (db.ledger.Stops · r) ?_)).trans (hiff.trans ?_)
      · exact (Service.releaseAll_same (d := dialect) db.ledger.records _).ledger
      · exact ⟨fun h => ⟨h.1, h.2, ho, managed, hmanaged, by simpa using hopen⟩,
          fun h => ⟨h.1, h.2.1⟩⟩

/-- A draft that a transaction releases, and no other record, is stopped. -/
theorem release_stops (clock : Clock) (hs : db.ledger.Sound) {l : Ledger}
    (hl : l.records = db.ledger.records) {x : Record} (hx : x ∈ db.ledger.records)
    (hd : x.state = .draft) (state : RecordState) (ht : state.terminal = true) (r : Record) :
    db.ledger.Stops (release { db with ledger := l } x state clock).ledger r ↔ r = x := by
  have hlive : x.state.terminal = false := by simp [hd, RecordState.terminal]
  have hledger : (release { db with ledger := l } x state clock).ledger =
      dialect.rule.release l x state (clock 0) := by
    simp [release, Service.release, hlive, Db.emit]
  rw [hledger]
  exact dialect.rule.release_stops hs hl hx hlive ht _ r

theorem failed_stops (hs : db.ledger.Sound) {a : TransferAttempt} {code : String} {done : Bool}
    (h : Transfers.commit env a (.failed code) clock db = .ok (db', done)) (r : Record) :
    db.ledger.Stops db'.ledger r ↔
      r ∈ db.ledger.records ∧ r.state.terminal = false ∧
        (Tx.commit a (.failed code)).aims clock db r := by
  simp only [Transfers.commit, bind_ok, found_ok] at h
  obtain ⟨b, hb, current, hcur, x, hx, h⟩ := h
  obtain ⟨hxm, hxid⟩ := Table.get_mem hx
  split_ifs at h with hown hdraft
  · obtain rfl := fst_ok h
    refine iff_of_false (not_stops_self hs r) ?_
    rintro ⟨-, -, -, _, y, -, -, hy, howned, hstate⟩
    obtain rfl := Option.some.inj (hcur.symm.trans hy)
    simp [howned, hstate] at hown
  · obtain rfl := fst_ok h
    refine iff_of_false (not_stops_self hs r) ?_
    rintro ⟨hr, -, hd, b', y, hb', hbr, -, -, -⟩
    obtain rfl := Option.some.inj (hb.symm.trans hb')
    rw [hs.records.eq_of_key_eq hxm hr (hxid.trans hbr)] at hdraft
    simp [hd] at hdraft
  · simp at *
  · have hd : x.state = .draft := by simpa using hdraft
    simp only [block_ok, Transfers.commit.apply, Except.ok.injEq] at h
    obtain ⟨_, rfl, rfl, -⟩ := h
    have hstops := release_stops (fun i => clock (i + 1)) hs
      (l := db.ledger.putAttempt (finished current a (.failed code) (clock 0))) rfl hxm hd
        .failed rfl r
    refine Iff.trans hstops ⟨?_, ?_⟩
    · rintro rfl
      simp only [not_or, Bool.not_eq_false, not_not] at hown
      exact ⟨hxm, by simp [hd, RecordState.terminal], hd, b, current, hb, hxid.symm, hcur,
        hown.1, hown.2⟩
    · rintro ⟨hr, -, -, b', y, hb', hbr, -, -, -⟩
      obtain rfl := Option.some.inj (hb.symm.trans hb')
      exact hs.records.eq_of_key_eq hr hxm (hbr.symm.trans hxid.symm)

theorem expire_stops (hs : db.ledger.Sound) {id : Id} (h : Transfers.expire id clock db = .ok db')
    (r : Record) :
    db.ledger.Stops db'.ledger r ↔
      r ∈ db.ledger.records ∧ r.state.terminal = false ∧ (Tx.expire id).aims clock db r := by
  simp only [Transfers.expire, bind_ok, found_ok] at h
  obtain ⟨x, hx, h⟩ := h
  obtain ⟨hxm, hxid⟩ := Table.get_mem hx
  have heq : r ∈ db.ledger.records → r.id = id → r = x := fun hr hid =>
    hs.records.eq_of_key_eq hr hxm (hid.trans hxid.symm)
  split_ifs at h with hdue
  · obtain rfl := Except.ok.inj h
    refine (release_stops _ hs rfl hxm hdue.1 _ rfl r).trans ⟨?_, fun h => heq h.1 h.2.2.1⟩
    rintro rfl
    exact ⟨hxm, by simp [hdue.1, RecordState.terminal], hxid, hdue⟩
  · obtain rfl := Except.ok.inj h
    refine iff_of_false (not_stops_self hs r) ?_
    rintro ⟨hr, -, hid, hd⟩
    exact hdue (heq hr hid ▸ hd)

/-- **A transaction that is accepted stops the records that it aims at.** -/
theorem Tx.run_stops (hs : db.ledger.Sound) {tx : Tx} (h : tx.run env clock db = .ok db')
    (r : Record) :
    db.ledger.Stops db'.ledger r ↔ r ∈ db.ledger.records ∧ r.state.terminal = false ∧
      tx.aims clock db r := by
  have hp : tx.Permitted { anything with stop := tx.stopping } db.ledger := by
    cases tx <;> simp [Tx.Permitted, anything, Allowance.free, Tx.stopping]
  have hnone : ¬ tx.stopping → ¬ tx.aims clock db r →
      (db.ledger.Stops db'.ledger r ↔ r ∈ db.ledger.records ∧ r.state.terminal = false ∧
        tx.aims clock db r) :=
    fun hw haims => iff_of_false ((Tx.run_effect rfl hs hp h).not_stops hs hw r) fun hr =>
      haims hr.2.2
  cases tx with
  | command p c =>
    obtain ⟨⟨_, response⟩, hrun, rfl⟩ := map_ok.mp h
    cases c with
    | withdrawRecord id => exact withdraw_stops hs hrun r
    | retireManagedSpace jobId key => exact retire_stops hs hrun r
    | _ => exact hnone (by simp [Tx.stopping, Command.deed, Service.Deed.stops]) id
  | commit a o =>
    obtain ⟨⟨_, done⟩, hrun, rfl⟩ := map_ok.mp h
    cases o with
    | failed code => exact failed_stops hs hrun r
    | _ => exact hnone (by simp [Tx.stopping, Outcome.state]) id
  | expire id => exact expire_stops hs h r
  | _ => exact hnone id id

/-- **The records that are live before a step and stopped after it are those that it stops by its
transaction and the state before.** -/
theorem Sys.step_stops {s : Sys} (hs : s.db.ledger.Sound) (a : Action) (r : Record) :
    s.db.ledger.Stops (s.step env a).db.ledger r ↔ s.Stops env a r := by
  rw [step_db]
  unfold after
  cases htx : s.transaction a with
  | none => exact iff_of_false (not_stops_self hs r) fun h => by simpa [htx] using h.accepted
  | some x =>
    obtain ⟨tx, clock⟩ := x
    show s.db.ledger.Stops (Python.step env s.db (tx, clock)).ledger r ↔ _
    cases hrun : tx.run env clock s.db with
    | ok db' =>
      rw [step_ok _ hrun, Tx.run_stops hs hrun r]
      constructor
      · exact fun ⟨hr, hlive, haims⟩ =>
          ⟨hr, hlive, tx, clock, htx, by simp [hrun, Except.isOk, Except.toBool], haims⟩
      · rintro ⟨hr, hlive, tx', clock', htx', -, haims⟩
        rw [htx] at htx'
        cases htx'
        exact ⟨hr, hlive, haims⟩
    | error x =>
      rw [step_error _ hrun]
      refine iff_of_false (not_stops_self hs r) ?_
      rintro ⟨-, -, tx', clock', htx', hok, -⟩
      rw [htx] at htx'
      cases htx'
      simp [hrun, Except.isOk, Except.toBool] at hok

end Stops

/-! ### The result -/

/-- The step deletes what a `prune` has selected, and with it, for an attachment that is charged,
every attempt that is left to clean. -/
def Sys.PrunesLast (s : Sys) (a : Action) : Prop :=
  ∃ i clock p, a = .prune i clock ∧ s.pruning i = some p ∧
    ∃ b ∈ s.db.ledger.blobs, b.pendingDeletion = true ∧ ∀ x ∈ s.db.ledger.attemptsOf b.id,
    x.state ≠ .cleaned → x.id ∈ p.rows.attempts

/-- The step strands a charge: it stops a record with a drained attachment, or deletes the last
attempt that is left to clean. -/
def Sys.Strands (env : Env) (s : Sys) (a : Action) : Prop :=
  (∃ r, s.Stops env a r ∧ ∃ b ∈ s.db.ledger.blobsOf r.id, Drained s.db.ledger b) ∨ s.PrunesLast a

theorem Sys.prune_covered (env : Env) {s : Sys} {i : Nat} {clock : Clock} {p : Pruning}
    (hp : s.pruning i = some p) :
    (s.step env (.prune i clock)).db.ledger.Covered ReleaseRule.python ↔
      ¬ s.PrunesLast (.prune i clock) := by
  rw [step_prune env hp]
  unfold Ledger.Covered
  simp only [open_python]
  constructor
  · rintro hcov ⟨i', clock', p', ha, hp', b, hb, hpending, hall⟩
    cases ha
    obtain rfl := Option.some.inj (hp.symm.trans hp')
    obtain ⟨x, hx, hxb, hopen⟩ := hcov b hb hpending
    obtain ⟨hx, hkept⟩ := List.mem_filter.mp hx
    exact of_decide_eq_true hkept (hall x (List.mem_filter.mpr ⟨hx, decide_eq_true hxb⟩) hopen)
  · intro hno b hb hpending
    by_contra hnone
    refine hno ⟨i, clock, p, rfl, hp, b, hb, hpending, fun x hx hopen => ?_⟩
    by_contra hkept
    obtain ⟨hx, hxb⟩ := List.mem_filter.mp hx
    exact hnone ⟨x, List.mem_filter.mpr ⟨hx, decide_eq_true hkept⟩, of_decide_eq_true hxb, hopen⟩

/-- One step keeps an open attempt for every charge iff it strands none. -/
theorem Sys.step_covered (env : Env) {s : Sys} (h : s.Steady)
    (hcov : s.db.ledger.Covered ReleaseRule.python) (a : Action) :
    (s.step env a).db.ledger.Covered ReleaseRule.python ↔ ¬ s.Strands env a := by
  have hs := h.regular.accounted.toSound
  have hrule := s.allowance_rule a
  by_cases hprune : ∃ i clock p, a = .prune i clock ∧ s.pruning i = some p
  · obtain ⟨i, clock, p, rfl, hp⟩ := hprune
    rw [prune_covered env hp]
    refine not_congr (or_iff_right ?_).symm
    rintro ⟨r, ⟨-, -, tx, clock', htx, -, haims⟩, -⟩
    simp only [transaction, hp, Option.map_some, Option.some.injEq, Prod.mk.injEq] at htx
    obtain ⟨rfl, -⟩ := htx
    exact haims
  · have hlast : ¬ s.PrunesLast a := by
      rintro ⟨i, clock, p, ha, hp, -⟩
      exact hprune ⟨i, clock, p, ha, hp⟩
    have hforget : ∀ id, ¬ (s.allowance a).forget id := by
      intro id hf
      obtain ⟨i, clock, p, -, ha, hp, -⟩ := allowance_forget hf
      exact hprune ⟨i, clock, p, ha, hp⟩
    have hiff := (Sys.step_effect env hs h.linked a).covered_iff
      (by rw [hrule]; exact ReleaseRule.python_lawful)
      (s.allowance_matched a) hforget hs h.regular.rested (by rw [hrule]; exact hcov)
    rw [hrule] at hiff
    rw [hiff]
    constructor
    · rintro hno (⟨r, hstop, b, hb, hdrained⟩ | hl)
      · exact hno r ((step_stops hs a r).mpr hstop) b hb
          ((stuck_python h.regular.accounted hstop.mem hstop.live hb).mpr hdrained)
      · exact hlast hl
    · intro hno r hstop b hb hstuck
      have hstop := (step_stops hs a r).mp hstop
      exact hno (Or.inl
        ⟨r, hstop, b, hb, (stuck_python h.regular.accounted hstop.mem hstop.live hb).mp hstuck⟩)

/-- **In a run every charge keeps an attempt to clean iff no step stops a record that has an
attachment with attempts, all of them cleaned, and no `prune` deletes the last attempt to clean of
a charged attachment, given up again after it was selected.** -/
theorem charges_stay_open_iff (env : Env) (spaceId profile : String) (limits : Limits)
    (creator : Principal) (now : Time) (actions : List Action) :
    Run.Always (Sys.step env)
      (fun s => ∀ b ∈ s.db.ledger.blobs, b.pendingDeletion = true →
        ∃ a ∈ s.db.ledger.attempts, a.blobId = b.id ∧ a.state ≠ .cleaned)
      (Sys.created spaceId profile limits creator now) actions ↔
    Run.Every (Sys.step env) (fun s a => ¬ s.Strands env a)
      (Sys.created spaceId profile limits creator now) actions := by
  have hcov : ∀ s : Sys, (∀ b ∈ s.db.ledger.blobs, b.pendingDeletion = true →
      ∃ a ∈ s.db.ledger.attempts, a.blobId = b.id ∧ a.state ≠ .cleaned) ↔
      s.db.ledger.Covered ReleaseRule.python := by
    intro s
    unfold Ledger.Covered
    simp only [open_python]
  simp only [hcov]
  refine Run.always_iff_every (J := Sys.Steady) (fun s a h => h.step env a) (fun s a h hc => ?_)
    (Sys.created_steady spaceId profile limits creator now) ?_ actions
  · exact Sys.step_covered env h hc a
  · -- A new space has no attachments.
    intro b hb
    simp [Sys.created, Db.created] at hb

namespace Sample

open Exchange.Sample

/-- The worker gives the slow upload up at 100, the call returns at 102 and its marker is
settled, the attempt is cleaned at 201, and at 202 the owner withdraws the draft. -/
def withdrawnAfterCleanup : List Action :=
  uploadStarts ++
    [.process "3" none (still 100), .returns 2 (.started "upload"), .next 2 (still 102),
      .next 2 (still 102), .next 2 (still 102), .next 2 (still 102), .next 2 (still 102),
      .process "3" none (still 200), .next 12 (still 200), .next 12 (still 200), .call 12,
      .returns 12 .cleaned, .next 12 (still 201), .next 12 (still 201),
      .command owner (.withdrawRecord "1") (still 202)]

/-- The upload has started, and its execution is about to give the attempt up when the owner
withdraws the draft. A worker cleans the attempt. Long after, a `prune` selects its row, the
execution goes on and puts the attempt behind the barrier again, and the `prune` deletes it. -/
def prunedAfterAbandon : List Action :=
  uploadStarts ++
    [.returns 2 (.started "upload"), .next 2 (still 1), .next 2 (still 1),
      .command owner (.withdrawRecord "1") (still 2), .process "3" none (still 200),
        .next 9 (still 200),
      .next 9 (still 200), .call 9, .returns 9 .cleaned, .next 9 (still 201), .next 9 (still 201),
      .selectPruned (fun _ => true) (fun _ => true) (still 2000000), .next 2 (still 2000000),
        .prune 16 (still 2000000)]

end Sample

/-- An attachment is charged, and no attempt of it is left to clean. -/
def Sys.Stranded (s : Sys) : Prop :=
  ∃ b ∈ s.db.ledger.blobs, b.pendingDeletion = true ∧
    ¬ ∃ a ∈ s.db.ledger.attempts, a.blobId = b.id ∧ a.state ≠ .cleaned

instance (s : Sys) : Decidable s.Stranded :=
  inferInstanceAs (Decidable (∃ b ∈ s.db.ledger.blobs, _))

/-- **Withdrawing a draft can charge an attachment all of whose attempts are cleaned, and a `prune`
can delete an attempt that was put behind the barrier again after it was selected.** -/
theorem charges_stranded : (Sample.start.run Sample.env Sample.withdrawnAfterCleanup).Stranded ∧
    (Sample.start.run Sample.env Sample.prunedAfterAbandon).Stranded := by
  decide +kernel

end Hf2l.Exchange.Python
