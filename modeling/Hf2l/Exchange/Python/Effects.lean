import Hf2l.Exchange.Python.System
import Hf2l.Exchange.Service.Log

/-!
# `Hf2l.Exchange.Python.Effects`: the abstract ledger covers the Python service

Each transaction of the Python service has an effect on the ledger, and the transactions of
transfers leave everything else as it was (`Tx.run_effect`, `Tx.run_transferred`). `Tx.Permitted`
says which of the things an `Allowance` restricts a transaction may do: only `commit` advances an
attempt, only a commit, a settlement and a finished PUT drop a marker, only `_abandon` and repairs
charge an attachment a second time, only `prune` deletes rows whatever they say by now, and only a
failed commit, an expiry, a withdrawal and a retirement stop records.
-/

set_option autoImplicit false

namespace Hf2l.Exchange.Python

open Lib Lib.Checked
open Attempts
open Transfers

/-- The snapshot of an attempt names the attachment that the attempt belongs to. -/
def Matches (l : Ledger) (a : TransferAttempt) : Prop :=
  ∀ x ∈ l.attempts, x.id = a.id → x.blobId = a.blobId

/-- `_abandon` charges the attachment again: its record is stopped, it is not charged, and
its attempt is behind the cleanup barrier with no marker left. -/
structure Recharges (l : Ledger) (a : TransferAttempt) (b : Blob) : Prop where
  mem : b ∈ l.blobs
  id : b.id = a.blobId
  uncharged : b.pendingDeletion = false
  stopped : ∃ r ∈ l.records, r.id = b.recordId ∧ r.state.terminal = true
  attempt : ∃ x ∈ l.attempts, x.id = a.id ∧ x.state.barred ∧ x.mutationTokens = []

/-- The transaction does nothing that the allowance forbids. -/
def Tx.Permitted (w : Allowance) (l : Ledger) : Tx → Prop
  | .command _ c => (∀ l r base, w.amend l r base) ∧ (c.deed.stops = true → w.stop)
  | .finishPut h => w.drop h.attemptId h.token
  | .commit a o => (o.state = .failed → w.stop) ∧ w.advance a.id a.state o.state ∧
      (∀ t, a.token = some t → w.drop a.id t) ∧ (w.matched → Matches l a)
  | .settleMutation a => (∀ t, a.token = some t → w.drop a.id t) ∧ (w.matched → Matches l a)
  | .abandon a => (w.matched → Matches l a) ∧ ∀ b, Recharges l a b → w.recharge l b
  | .repairMutations ids stopped quiesced =>
    (stopped = true → quiesced = true → ∀ id ∈ ids, w.repair id) ∧ ∀ l b, w.recharge l b
  | .expire _ => w.stop
  | .prune rows => ∀ id ∈ rows.attempts, w.forget id
  | _ => True

namespace Transfers

variable {w : Allowance} {A : Allowance → Prop} {env : Env} {db db' : Db} {clock : Clock}
  {p : Principal}

/-! ### Uploads and gateway PUTs -/

variable {attachmentId recordId : Id} {expiry now : Time} {handle : GatewayPutHandle} {b : Blob}
  {current attempt : TransferAttempt}

theorem initiate_wrote {next : Next}
    (h : initiate env p recordId attachmentId clock db = .ok (db', next)) :
    Wrote A clock db [] db' := by
  simp only [initiate, block_ok, refuse_ok, not_not] at h
  obtain ⟨member, -, rb, hrb, hd, h⟩ := h
  obtain ⟨hb, hdraft⟩ := recordAndBlob_ok hrb
  split at h
  · exact fst_ok h ▸ .refl db
  · rename_i hnone
    split at h
    · exact fst_ok h ▸ .refl db
    · simp only [block_ok, refuse_ok] at h
      obtain ⟨-, -, -, rfl, -⟩ := h
      exact .quiet rfl rfl (Changes.one (.start rb.2 _ hb (hdraft hd) (newAttempt_initiated _ _)
        (Ledger.active_none hnone)))

theorem exposeGrants_wrote {request : SigningRequest} {expiries : List Time}
    (h : grants.expose env p request expiry expiries clock db = .ok db') :
    Wrote A clock db [] db' := by
  simp only [grants.expose, block_ok, refuse_ok, found_ok] at h
  obtain ⟨member, -, rb, hrb, attempt, ha, -, rfl⟩ := h
  exact .quiet rfl rfl (raiseGrant_changes (recordAndBlob_ok hrb).1 (Table.get_mem ha).1 _)

theorem admitPut_wrote {part : Nat}
    (h : beginGatewayPut.admission env p recordId attachmentId part clock db = .ok (db', handle)) :
    Wrote A clock db [] db' := by
  simp only [beginGatewayPut.admission, block_ok, refuse_ok, found_ok, not_or, not_not] at h
  obtain ⟨-, -, member, -, rb, -, attempt, ha, ⟨-, -, -, hs⟩, uploadId, -, -, _, -, -, rfl, -⟩ := h
  exact .quiet rfl rfl (Changes.one (.attempt attempt _ 1 (Ledger.active_some ha).1
    (Move.mark part (show attempt.state = .uploading by simpa using hs))))

theorem exposePut_wrote
    (h : beginGatewayPut.expose env p handle expiry clock db = .ok db') :
    Wrote A clock db [] db' := by
  simp only [beginGatewayPut.expose, block_ok, refuse_ok, found_ok] at h
  obtain ⟨member, -, rb, hrb, attempt, ha, -, rfl⟩ := h
  exact .quiet rfl rfl (raiseGrant_changes (recordAndBlob_ok hrb).1 (Table.get_mem ha).1 _)

theorem rearmCleanup_rearms {l l' : Ledger} (h : rearmCleanup l b current now = .ok l') :
    Rearms now l b current l' := by
  unfold rearmCleanup at h
  split_ifs at h with hs
  · simp only [block_ok, found_ok] at h
    obtain ⟨r, hr, rfl⟩ := h
    exact .rearm r hr hs
  · exact Except.ok.inj h ▸ .keep fun hbar => absurd hbar hs

theorem finishPut_wrote {done : Bool}
    (hw : ∀ w, A w → db.ledger.Sound ∧ w.drop handle.attemptId handle.token)
    (h : finishGatewayPut handle clock db = .ok (db', done)) : Wrote A clock db [] db' := by
  unfold finishGatewayPut at h
  split_ifs at h with hform
  · exact fst_ok h ▸ .refl db
  · split at h
    · rename_i b current hb hcur
      obtain ⟨hbm, hbid⟩ := Table.get_mem hb
      obtain ⟨ha, hid⟩ := Table.get_mem hcur
      split_ifs at h with hmark
      · exact fst_ok h ▸ .refl db
      · simp only [block_ok] at h
        obtain ⟨l', hl, rfl, -⟩ := h
        simp only [not_or, Bool.not_eq_false, holdsMarker, Bool.and_eq_true,
          decide_eq_true_eq] at hmark
        obtain ⟨-, ⟨⟨⟨hblob, -⟩, -⟩, -⟩, htoken⟩ := hmark
        exact (rearmCleanup_rearms hl).settled ha hbm htoken (dropToken_work current handle.token)
            fun w hA =>
          ⟨(hw w hA).1, fun _ => hblob.trans hbid.symm, hid ▸ (hw w hA).2⟩
    · exact fst_ok h ▸ .refl db

theorem completeUpload_wrote {next : Next}
    (h : complete env p recordId attachmentId clock db = .ok (db', next)) :
    Wrote A clock db [] db' := by
  simp only [complete, block_ok, refuse_ok, not_not] at h
  obtain ⟨member, -, rb, hrb, hd, h⟩ := h
  obtain ⟨hb, hdraft⟩ := recordAndBlob_ok hrb
  split at h
  · exact fst_ok h ▸ .refl db
  · rename_i attempt ha
    split_ifs at h with hs
    · exact fst_ok h ▸ .refl db
    · simp only [block_ok, refuse_ok] at h
      obtain ⟨-, -, rfl, -⟩ := h
      have hup : attempt.state = .uploading := by simpa using hs
      exact .quiet rfl rfl
        (relabel_changes (Ledger.active_some ha).1 (Move.submit hup) hb (hdraft hd) (by simp))

theorem exposeDownload_wrote
    (h : download.expose env p recordId attachmentId expiry clock db = .ok db') :
    Wrote A clock db [] db' := by
  simp only [download.expose, block_ok] at h
  obtain ⟨member, -, rb, hrb, -, h⟩ := h
  split at h
  · rename_i attempt ha
    exact Except.ok.inj h ▸
      .quiet rfl rfl (raiseGrant_changes (recordAndBlob_ok hrb).1 (Ledger.active_some ha).1 _)
  · exact Except.ok.inj h ▸
      .quiet rfl rfl (Changes.one (.blob rb.2 _ (recordAndBlob_ok hrb).1 (.expose _)))

/-! ### Executions -/

theorem acquire_wrote {attemptId : Id} {cleanup : Option Bool} {next : Option TransferAttempt}
    (h : acquire env attemptId cleanup clock db = .ok (db', next)) : Wrote A clock db [] db' := by
  unfold acquire at h
  dsimp only at h
  split at h
  · exact fst_ok h ▸ .refl db
  · rename_i attempt hat
    obtain ⟨ha, -⟩ := Table.get_mem hat
    simp only [bind_ok, found_ok] at h
    obtain ⟨b, hb, h⟩ := h
    obtain ⟨hbm, hbid⟩ := Table.get_mem hb
    split_ifs at h with h1 h2 h3 h4 h5 h6 h7
    · exact fst_ok h ▸ .refl db
    · exact fst_ok h ▸ .refl db
    · exact fst_ok h ▸ .quiet rfl rfl (keep_changes ha rfl)
    · exact fst_ok h ▸ .refl db
    · exact recoverInitiation_wrote ha hbm hbid.symm h5 h
    · exact fst_ok h ▸ .quiet rfl rfl (keep_changes ha rfl)
    · exact fst_ok h ▸ .quiet rfl rfl (withLease_changes ha h7 _)
    · exact fst_ok h ▸ .refl db

/-- A commit that passed its checks. An outcome other than `cleaned` is that of a draft. -/
theorem commit_apply_logged {r : Record} {o : Outcome} {t : Token}
    (hr : r ∈ db.ledger.records) (hd : o ≠ .cleaned → r.state = .draft)
    (hc : ∀ w, A w → w.rule = ReleaseRule.python ∧ (o.state = .failed → w.stop) ∧
      Committing w db.ledger r b current attempt o t)
    (h : commit.apply env r b current attempt o clock db = .ok db') :
    ∃ k ≤ 3, Logged A clock db k db' := by
  unfold commit.apply at h
  cases o with
  | uploading handle =>
    simp only [Except.ok.injEq] at h
    subst h
    exact ⟨0, Nat.zero_le 3, .of_changes (.quiet rfl rfl) fun w hw => (hc w hw).2.2.relabel
      (by simp) (by simp)⟩
  | verifying version =>
    simp only [Except.ok.injEq] at h
    subst h
    refine ⟨0, Nat.zero_le 3, .of_changes ?_ fun w hw => (hc w hw).2.2.extend (by simp) (by simp)⟩
    exact ⟨.one r _ hr (hd (by simp)) (.extend _) rfl, rfl⟩
  | verified size sha256 =>
    simp only [block_ok, found_ok] at h
    obtain ⟨version, -, rfl⟩ := h
    exact ⟨0, Nat.zero_le 3, .of_changes (.quiet rfl rfl) fun w hw => (hc w hw).2.2.verify⟩
  | failed code =>
    simp only [Except.ok.injEq] at h
    subst h
    refine ⟨2, by decide, .release dialect hr (hd (by simp)) rfl rfl rfl fun w hw => ?_⟩
    have he := (hc w hw).2.2.fail ((hc w hw).2.1 rfl) code (clock 0) (clock 1)
    rwa [(hc w hw).1] at he
  | cleaned =>
    simp only [Except.ok.injEq] at h
    subst h
    refine ⟨0, Nat.zero_le 3, .of_changes (.cleanAttempt ..) fun w hw => ?_⟩
    have he := (hc w hw).2.2.clean (clock 0)
    rwa [(hc w hw).1] at he

theorem commit_wrote {o : Outcome} {done : Bool}
    (hA : ∀ w, A w → w.rule = ReleaseRule.python ∧ (o.state = .failed → w.stop) ∧
      w.advance attempt.id attempt.state o.state ∧
      (∀ t, attempt.token = some t → w.drop attempt.id t) ∧ (w.matched → Matches db.ledger attempt))
    (h : commit env attempt o clock db = .ok (db', done)) : Wrote A clock db [] db' := by
  simp only [commit, bind_ok, found_ok] at h
  obtain ⟨b, hb, current, hcur, r, hr, h⟩ := h
  obtain ⟨hbm, hbid⟩ := Table.get_mem hb
  obtain ⟨ha, hid⟩ := Table.get_mem hcur
  obtain ⟨hrm, hrid⟩ := Table.get_mem hr
  split_ifs at h with hown hdraft hmarked
  · exact fst_ok h ▸ .refl db
  · exact fst_ok h ▸ .refl db
  · exact fst_ok h ▸ .quiet rfl rfl (requeued_changes ha _ _)
  · have hdrafted : o ≠ .cleaned → r.state = .draft := fun hne => by simpa [hne] using hdraft
    obtain ⟨t, hc⟩ := Committing.of_checks hrm hrid hbm ha hid hown hdrafted hmarked
    simp only [block_ok] at h
    obtain ⟨db₁, h, rfl, -⟩ := h
    obtain ⟨k, hk, hl⟩ := commit_apply_logged hrm hdrafted (fun w hw => ⟨(hA w hw).1, (hA w hw).2.1,
      hc w (fun hm => ((hA w hw).2.2.2.2 hm current ha hid).trans hbid.symm) (hA w hw).2.2.1
        (hA w hw).2.2.2.1⟩) h
    exact (hl.emit hk ..).wrote

theorem retry_wrote (attempt : TransferAttempt) (code : String) :
    Wrote A clock db [] (retry attempt code clock db) := by
  unfold retry
  split
  · rename_i current _ hcur
    split_ifs
    · exact .refl db
    · exact .quiet rfl rfl (requeued_changes (Table.get_mem hcur).1 _ _)
  · exact .refl db

theorem settleMutation_wrote (hA : ∀ w, A w → db.ledger.Sound ∧
      (∀ t, attempt.token = some t → w.drop attempt.id t) ∧ (w.matched → Matches db.ledger attempt))
    (h : settleMutation attempt clock db = .ok db') : Wrote A clock db [] db' := by
  unfold settleMutation at h
  split at h
  · rename_i b current hb hcur
    obtain ⟨hbm, hbid⟩ := Table.get_mem hb
    obtain ⟨ha, hid⟩ := Table.get_mem hcur
    split_ifs at h with hmark
    · simp only [block_ok] at h
      obtain ⟨l', hl, rfl⟩ := h
      obtain ⟨t, ht, he⟩ := List.any_eq_true.mp hmark
      have htoken : attempt.token = some t := (of_decide_eq_true he).symm
      rw [htoken] at hl
      exact (rearmCleanup_rearms hl).settled ha hbm ht (dropToken_work current t) fun w hw =>
        ⟨(hA w hw).1, fun hm => ((hA w hw).2.2 hm current ha hid).trans hbid.symm,
          hid ▸ (hA w hw).2.1 t htoken⟩
    · exact Except.ok.inj h ▸ .refl db
  · exact Except.ok.inj h ▸ .refl db

theorem abandon_wrote (hA : ∀ w, A w → (w.matched → Matches db.ledger attempt) ∧
      ∀ b, Recharges db.ledger attempt b → w.recharge db.ledger b)
    (h : abandon attempt clock db = .ok db') : Wrote A clock db [] db' := by
  unfold abandon at h
  split at h
  · rename_i b current hb hcur
    obtain ⟨hbm, hbid⟩ := Table.get_mem hb
    obtain ⟨ha, hid⟩ := Table.get_mem hcur
    simp only [block_ok] at h
    obtain ⟨l', hl, rfl⟩ := h
    exact (rearmCleanup_rearms hl).kept ha hbm fun w hw =>
      ⟨fun hm => ((hA w hw).1 hm current ha hid).trans hbid.symm, fun htokens hs hr hp =>
        (hA w hw).2 b ⟨hbm, hbid, hp, hr, current, ha, hid, hs, htokens⟩⟩
  · exact Except.ok.inj h ▸ .refl db

/-! ### Maintenance -/

theorem expire_wrote (hA : ∀ w, A w → w.rule = ReleaseRule.python ∧ w.stop)
    (h : expire recordId clock db = .ok db') : Wrote A clock db [] db' := by
  simp only [expire, bind_ok, found_ok] at h
  obtain ⟨r, hr, h⟩ := h
  obtain ⟨hrm, -⟩ := Table.get_mem hr
  split_ifs at h with hs
  · exact Except.ok.inj h ▸ (Logged.stop dialect hA hrm hs.1 rfl).wrote
  · exact Except.ok.inj h ▸ .refl db

theorem repairAttempt_repairs (l : Ledger) (a : TransferAttempt) (l' : Ledger)
    (h : repairAttempt now l a = .ok l') : Repairs now l a l' := by
  simp only [repairAttempt, block_ok, refuse_ok, found_ok, Bool.not_eq_false] at h
  obtain ⟨b, hb, r, hr, hrep, rfl⟩ := h
  refine ⟨b, r, _, hb, hr, by simp, ?_, rfl⟩
  simp only [repairable, Bool.and_eq_true, Bool.or_eq_true, decide_eq_true_eq] at hrep
  tauto

theorem repairMutations_wrote {ids : List Id} {stopped quiesced : Bool}
    (hA : ∀ w, A w → Table.Keyed TransferAttempt.id db.ledger.attempts ∧
      (stopped = true → quiesced = true → ∀ id ∈ ids, w.repair id) ∧ ∀ l b, w.recharge l b)
    (h : repairMutations ids stopped quiesced clock db = .ok db') :
    Wrote A clock db [] db' := by
  simp only [repairMutations, block_ok, refuse_ok, not_or, Bool.not_eq_false] at h
  obtain ⟨-, ⟨hstopped, hquiesced⟩, -, l', hl, rfl⟩ := h
  exact repair_wrote repairAttempt_repairs
    (fun w hw => ⟨(hA w hw).1, (hA w hw).2.1 hstopped hquiesced, (hA w hw).2.2⟩) hl

end Transfers

/-! ### All transactions -/

/-- The transaction is one of a transfer, not a command. -/
def Tx.isTransfer : Tx → Bool
  | .command _ _ => false
  | _ => true

/-- The events that the transaction removes. -/
def Tx.pruned : Tx → List Nat
  | .pruneEvents ids => ids
  | _ => []

section
variable {A : Allowance → Prop} {env : Env} {clock : Clock} {db db' : Db} {tx : Tx}

theorem Tx.run_wrote
    (hA : ∀ w, A w → w.rule = ReleaseRule.python ∧ db.ledger.Sound ∧ tx.Permitted w db.ledger)
    (ht : tx.isTransfer = true) (h : tx.run env clock db = .ok db') :
    Wrote A clock db tx.pruned db' := by
  cases tx with
  | command p c => simp [Tx.isTransfer] at ht
  | initiate p r b => exact .of_map h fun _ => initiate_wrote
  | exposeGrants p request expiry expiries => exact exposeGrants_wrote h
  | admitPut p r b part => exact .of_map h fun _ => admitPut_wrote
  | exposePut p handle expiry => exact exposePut_wrote h
  | finishPut handle => exact .of_map h fun _ => finishPut_wrote (fun w hw => (hA w hw).2)
  | completeUpload p r b => exact .of_map h fun _ => completeUpload_wrote
  | exposeDownload p r b expiry => exact exposeDownload_wrote h
  | acquire id cleanup => exact .of_map h fun _ => acquire_wrote
  | heartbeat a =>
    exact Except.ok.inj h ▸ .quiet rfl rfl (updateAttempts_changes _ _ fun _ => Or.inl rfl)
  | releaseLease a =>
    exact Except.ok.inj h ▸ .quiet rfl rfl (updateAttempts_changes _ _ fun _ => Or.inr rfl)
  | commit a o => exact .of_map h fun _ => commit_wrote (fun w hw => ⟨(hA w hw).1, (hA w hw).2.2⟩)
  | retry a code => exact Except.ok.inj h ▸ retry_wrote a code
  | settleMutation a => exact settleMutation_wrote (fun w hw => (hA w hw).2) h
  | abandon a => exact abandon_wrote (fun w hw => (hA w hw).2.2) h
  | expire id => exact expire_wrote (fun w hw => ⟨(hA w hw).1, (hA w hw).2.2⟩) h
  | repairMutations ids stopped quiesced =>
    exact repairMutations_wrote (fun w hw => ⟨(hA w hw).2.1.attempts, (hA w hw).2.2⟩) h
  | prune rows =>
    obtain rfl := Except.ok.inj h
    refine ⟨.pruned _ _ (.quiet rfl rfl),
      fun w hw => .quiet (Changes.one (.forget _ fun a _ hkeep => Or.inl ?_))⟩
    exact (hA w hw).2.2 a.id (by simpa using hkeep)
  | pruneEvents ids =>
    obtain rfl := Except.ok.inj h
    exact ⟨.prunedEvents ids, fun w _ => .quiet (pruneEvents_changes _ _)⟩

/-- **A transaction of a transfer writes no record but a draft, and of the other tables only the
log of events.** -/
theorem Tx.run_transferred (ht : tx.isTransfer = true) (h : tx.run env clock db = .ok db') :
    Transferred clock db tx.pruned db' :=
  (Tx.run_wrote (A := fun _ => False) (fun _ => False.elim) ht h).1

end

/-- **Every permitted transaction has an effect on the ledger.** -/
theorem Tx.run_effect {w : Allowance} {env : Env} {clock : Clock} {db db' : Db} {tx : Tx}
    (hrule : w.rule = ReleaseRule.python) (hs : db.ledger.Sound) (hp : tx.Permitted w db.ledger)
    (h : tx.run env clock db = .ok db') : Effect w db.ledger db'.ledger := by
  cases tx with
  | command p c =>
    obtain ⟨⟨db₁, _⟩, h₁, rfl⟩ := map_ok.mp h
    exact (c.run_committed h₁).effect hrule hp.1 hp.2 hs.records
  | _ => exact (Tx.run_wrote (A := (· = w)) (fun _ he => he ▸ ⟨hrule, hs, hp⟩) rfl h).2 w rfl

/-- The command that a transaction runs. -/
def Tx.call : Tx → Option (Principal × Command)
  | .command p c => some (p, c)
  | _ => none

theorem step_stepped (env : Env) (db : Db) (tx : Tx × Clock) :
    Stepped dialect env tx.2 db tx.1.call tx.1.pruned (step env db tx) := by
  obtain ⟨tx, clock⟩ := tx
  refine .of_run (fun p c hc => ?_) fun hnone db' hrun => Tx.run_transferred ?_ hrun
  · cases tx <;> cases hc
    rfl
  · cases tx <;> first | rfl | cases hnone

end Hf2l.Exchange.Python
