import Hf2l.Exchange.Go.System
import Hf2l.Exchange.Service.Log

/-!
# `Hf2l.Exchange.Go.Effects`: the abstract ledger covers the Go service

The counterpart of `Python.Effects`. The Go service finds the attachment of an attempt through
the row of the attempt (`locked`), not through the snapshot, so its transactions need no
assumption about snapshots. And it charges an attachment again only while the attempt has a
marker, or in a repair.
-/

set_option autoImplicit false

namespace Hf2l.Exchange.Go

open Lib Lib.Checked
open Attempts
open Transfers

/-- The transaction does nothing that the allowance forbids. -/
def Tx.Permitted (w : Allowance) : Tx → Prop
  | .command _ c => (∀ l r base, w.amend l r base) ∧ (c.deed.stops = true → w.stop)
  | .finishPut h => w.drop h.attemptId h.token
  | .commit a o => (o.state = .failed → w.stop) ∧ w.advance a.id a.state o.state ∧
      ∀ t, a.token = some t → w.drop a.id t
  | .settleMutation a => ∀ t, a.token = some t → w.drop a.id t
  | .repairMutations ids stopped quiesced =>
    (stopped = true → quiesced = true → ∀ id ∈ ids, w.repair id) ∧ ∀ l b, w.recharge l b
  | .expire _ => w.stop
  | _ => True

namespace Transfers

variable {w : Allowance} {A : Allowance → Prop} {env : Env} {db db' : Db} {clock : Clock}
  {p : Principal}

variable {l : Ledger} {a current attempt : TransferAttempt} {b : Blob} {attachmentId recordId : Id}
  {handle : GatewayPutHandle} {now : Time}

/-- The active attempt is that of the ledger. -/
theorem active_ok {blobId : Id} {a : Option TransferAttempt} (h : active l blobId = .ok a) :
    l.active blobId = a := by
  unfold active at h
  split at h
  · rename_i hnone
    rw [Except.ok.injEq] at h
    rw [hnone, h]
  · rename_i attempt hsome
    simp only [block_ok] at h
    obtain ⟨-, -, rfl⟩ := h
    exact hsome

theorem tokens_ok {ts : List Token} (h : tokens a = .ok ts) : ts = a.mutationTokens := by
  simp only [tokens, block_ok] at h
  exact h.2.symm

/-- The rows that `locked` finds belong together. -/
theorem locked_some {id : Id} {r : Option Record} (h : locked l id = some (b, a, r)) :
    a ∈ l.attempts ∧ a.id = id ∧ b ∈ l.blobs ∧ a.blobId = b.id ∧ l.record b.recordId = r := by
  simp only [locked, Option.bind_eq_bind, Option.bind_eq_some_iff, Option.pure_def,
    Option.some.injEq, Prod.mk.injEq] at h
  obtain ⟨x, hx, y, hy, rfl, rfl, hr⟩ := h
  obtain ⟨hxm, hxid⟩ := Table.get_mem hx
  obtain ⟨hym, hyid⟩ := Table.get_mem hy
  exact ⟨hxm, hxid, hym, hyid.symm, hr⟩

theorem hasToken_mem {token : Option Token} (h : hasToken a token = true) :
    ∃ t ∈ a.mutationTokens, token = some t := by
  simp only [hasToken, Bool.and_eq_true, List.any_eq_true, decide_eq_true_eq] at h
  obtain ⟨-, t, ht, he⟩ := h
  exact ⟨t, ht, he.symm⟩

/-! ### Uploads and gateway PUTs -/

theorem initiate_wrote {next : Next}
    (h : initiate env p recordId attachmentId clock db = .ok (db', next)) :
    Wrote A clock db [] db' := by
  simp only [initiate, block_ok, refuse_ok, not_not] at h
  obtain ⟨member, -, rb, hrb, hd, current, hact, h⟩ := h
  obtain ⟨hb, hdraft⟩ := recordAndBlob_ok hrb
  have hactive := active_ok hact
  split at h
  · exact fst_ok h ▸ .refl db
  · simp only [block_ok, refuse_ok] at h
    obtain ⟨-, h⟩ := h
    split at h
    · exact fst_ok h ▸ .refl db
    · simp only [block_ok, refuse_ok] at h
      obtain ⟨-, -, rfl, -⟩ := h
      exact .quiet rfl rfl (Changes.one (.start rb.2 _ hb (hdraft hd) (newAttempt_initiated _ _)
        (Ledger.active_none hactive)))

theorem exposeGrants_wrote {request : SigningRequest} {expiries : List Time}
    (h : grants.expose env p request expiries clock db = .ok db') : Wrote A clock db [] db' := by
  simp only [grants.expose, block_ok, refuse_ok, found_ok] at h
  obtain ⟨member, -, rb, hrb, attempt, ha, -, -, -, rfl⟩ := h
  exact .quiet rfl rfl (raiseGrant_changes (recordAndBlob_ok hrb).1 (Table.get_mem ha).1 _)

theorem admitPut_wrote {part : Nat}
    (h : beginGatewayPut.admission env p recordId attachmentId part clock db = .ok (db', handle)) :
    Wrote A clock db [] db' := by
  simp only [beginGatewayPut.admission, block_ok, refuse_ok, found_ok, not_or, not_not] at h
  obtain ⟨-, -, member, -, rb, -, current, hact, attempt, hcur, ⟨-, -, -, hs⟩, uploadId, -, -, _, -,
    markers, hmarkers, -, rfl, -⟩ := h
  have hactive := (active_ok hact).trans hcur
  rw [tokens_ok hmarkers]
  exact .quiet rfl rfl (Changes.one (.attempt attempt _ 1 (Ledger.active_some hactive).1
    (Move.mark part (show attempt.state = .uploading by simpa using hs))))

theorem exposePut_wrote {expiry : Time}
    (h : beginGatewayPut.expose env p handle expiry clock db = .ok db') :
    Wrote A clock db [] db' := by
  simp only [beginGatewayPut.expose, block_ok, refuse_ok, found_ok] at h
  obtain ⟨member, -, rb, hrb, attempt, ha, -, rfl⟩ := h
  exact .quiet rfl rfl (raiseGrant_changes (recordAndBlob_ok hrb).1 (Table.get_mem ha).1 _)

theorem rearmCleanup_rearms {l' : Ledger} (h : rearmCleanup l b current now = .ok l') :
    Rearms now l b current l' := by
  simp only [rearmCleanup, bind_ok] at h
  obtain ⟨_, -, h⟩ := h
  split_ifs at h with hs
  · split at h
    · rename_i r hr
      exact Except.ok.inj h ▸ .rearm r hr hs
    · rename_i hnone
      exact Except.ok.inj h ▸ .keep fun _ => hnone
  · exact Except.ok.inj h ▸ .keep fun hbar => absurd hbar hs

theorem finishPut_wrote {done : Bool}
    (hw : ∀ w, A w → db.ledger.Sound ∧ w.drop handle.attemptId handle.token)
    (h : finishGatewayPut handle clock db = .ok (db', done)) : Wrote A clock db [] db' := by
  unfold finishGatewayPut at h
  split_ifs at h with hform
  · exact fst_ok h ▸ .refl db
  · split at h
    · rename_i b current hb hcur
      obtain ⟨hbm, hbid⟩ := Table.get_mem hb
      obtain ⟨ha, hid⟩ := Table.get_mem hcur
      split at h
      · exact fst_ok h ▸ .refl db
      · rename_i hmark
        simp only [not_or, not_not] at hmark
        simp only [bind_ok] at h
        obtain ⟨-, -, h⟩ := h
        split_ifs at h with htoken
        · exact fst_ok h ▸ .refl db
        · simp only [block_ok] at h
          obtain ⟨l', hl, rfl, -⟩ := h
          obtain ⟨t, ht, he⟩ := hasToken_mem (by simpa using htoken)
          have htok : handle.token = t := Option.some.inj he
          exact (rearmCleanup_rearms hl).settled ha hbm (htok ▸ ht)
              (dropToken_work current handle.token) fun w hA =>
            ⟨(hw w hA).1, fun _ => hmark.2.1.trans hbid.symm, hid ▸ (hw w hA).2⟩
    · exact fst_ok h ▸ .refl db

theorem completeUpload_wrote {next : Next}
    (h : complete env p recordId attachmentId clock db = .ok (db', next)) :
    Wrote A clock db [] db' := by
  simp only [complete, block_ok, refuse_ok, not_not] at h
  obtain ⟨member, -, rb, hrb, hd, current, hact, h⟩ := h
  obtain ⟨hb, hdraft⟩ := recordAndBlob_ok hrb
  have hactive := active_ok hact
  split at h
  · exact fst_ok h ▸ .refl db
  · rename_i attempt
    split_ifs at h with hs
    · exact fst_ok h ▸ .refl db
    · simp only [block_ok, refuse_ok] at h
      obtain ⟨-, markers, hmarkers, -, rfl, -⟩ := h
      rw [tokens_ok hmarkers]
      have hup : attempt.state = .uploading := by simpa using hs
      exact .quiet rfl rfl
        (relabel_changes (Ledger.active_some hactive).1 (Move.submit hup) hb (hdraft hd) (by simp))

theorem exposeDownload_wrote {expiry : Time}
    (h : download.expose env p recordId attachmentId expiry clock db = .ok db') :
    Wrote A clock db [] db' := by
  simp only [download.expose, block_ok] at h
  obtain ⟨member, -, rb, hrb, -, current, hact, h⟩ := h
  have hactive := active_ok hact
  split at h
  · exact Except.ok.inj h ▸
      .quiet rfl rfl (raiseGrant_changes (recordAndBlob_ok hrb).1 (Ledger.active_some hactive).1 _)
  · exact Except.ok.inj h ▸
      .quiet rfl rfl (Changes.one (.blob rb.2 _ (recordAndBlob_ok hrb).1 (.expose _)))

/-! ### Executions -/

theorem acquire_wrote {attemptId : Id} {cleanup : Option Bool} {next : Acquired}
    (h : acquire env attemptId cleanup clock db = .ok (db', next)) : Wrote A clock db [] db' := by
  unfold acquire at h
  dsimp only at h
  split at h
  · exact fst_ok h ▸ .refl db
  · exact fst_ok h ▸ .refl db
  · rename_i b attempt r hlocked
    obtain ⟨ha, -, hbm, hab, -⟩ := locked_some hlocked
    split_ifs at h with h1 h2 h3 h4 h5 h6 h7 h8
    · exact fst_ok h ▸ .refl db
    · exact fst_ok h ▸ .refl db
    · exact fst_ok h ▸ .quiet rfl rfl (keep_changes ha rfl)
    · exact fst_ok h ▸ .quiet rfl rfl (keep_changes ha rfl)
    · exact fst_ok h ▸ .refl db
    · obtain ⟨⟨db₁, next'⟩, hrec, he⟩ := map_ok.mp h
      simp only [Prod.mk.injEq] at he
      exact he.1 ▸ recoverInitiation_wrote ha hbm hab h6 hrec
    · exact fst_ok h ▸ .quiet rfl rfl (keep_changes ha rfl)
    · exact fst_ok h ▸ .quiet rfl rfl (withLease_changes ha h8 _)
    · exact fst_ok h ▸ .refl db

/-- A commit that passed its checks. An outcome other than `cleaned` is that of a draft. -/
theorem commit_apply_logged (env : Env) {r : Record} {o : Outcome}
    {t : Token} (hr : r ∈ db.ledger.records) (hd : o ≠ .cleaned → r.state = .draft)
    (hc : ∀ w, A w → w.rule = ReleaseRule.go ∧ (o.state = .failed → w.stop) ∧
      Committing w db.ledger r b current attempt o t) :
    ∃ k ≤ 3, Logged A clock db k (commit.apply env r b current attempt o clock db) := by
  unfold commit.apply
  cases o with
  | uploading handle =>
    exact ⟨0, Nat.zero_le 3, .of_changes (.quiet rfl rfl) fun w hw => (hc w hw).2.2.relabel
      (by simp) (by simp)⟩
  | verifying version =>
    refine ⟨0, Nat.zero_le 3, .of_changes ?_ fun w hw => (hc w hw).2.2.extend (by simp) (by simp)⟩
    exact ⟨.one r _ hr (hd (by simp)) (.extend _) rfl, rfl⟩
  | verified size sha256 =>
    exact ⟨0, Nat.zero_le 3, .of_changes (.quiet rfl rfl) fun w hw => (hc w hw).2.2.verify⟩
  | failed code =>
    -- A failure keeps its state under any code.
    obtain ⟨code', hcode⟩ : ∃ code', named (.failed code) = .failed code' := by
      unfold named
      split <;> exact ⟨_, rfl⟩
    dsimp only
    rw [hcode]
    refine ⟨2, by decide, .release dialect hr (hd (by simp)) rfl rfl rfl fun w hw => ?_⟩
    have he := (hc w hw).2.2.fail ((hc w hw).2.1 rfl) code' (clock 0) (clock 1)
    rwa [(hc w hw).1] at he
  | cleaned =>
    refine ⟨0, Nat.zero_le 3, .of_changes (.cleanAttempt ..) fun w hw => ?_⟩
    have he := (hc w hw).2.2.clean (clock 0)
    rwa [(hc w hw).1] at he

theorem commit_wrote {o : Outcome} {done : Bool}
    (hA : ∀ w, A w → w.rule = ReleaseRule.go ∧ (o.state = .failed → w.stop) ∧
      w.advance attempt.id attempt.state o.state ∧
      ∀ t, attempt.token = some t → w.drop attempt.id t)
    (h : commit env attempt o clock db = .ok (db', done)) : Wrote A clock db [] db' := by
  unfold commit at h
  dsimp only at h
  split at h
  · exact fst_ok h ▸ .refl db
  · exact fst_ok h ▸ .refl db
  · rename_i b current r hlocked
    obtain ⟨ha, hid, hbm, hab, hr⟩ := locked_some hlocked
    obtain ⟨hrm, hrid⟩ := Table.get_mem hr
    split at h
    · exact fst_ok h ▸ .refl db
    · rename_i hown
      simp only [bind_ok] at h
      obtain ⟨markers, hmarkers, h⟩ := h
      have hmarks := tokens_ok hmarkers
      split_ifs at h with hdraft hmarked
      · exact fst_ok h ▸ .refl db
      · exact fst_ok h ▸ .quiet rfl rfl (requeued_changes ha _ _)
      · have hdrafted : o ≠ .cleaned → r.state = .draft := fun hne => by simpa [hne] using hdraft
        obtain ⟨t, hc⟩ := Committing.of_checks hrm hrid hbm ha hid hown hdrafted (hmarks ▸ hmarked)
        obtain rfl := fst_ok h
        obtain ⟨k, hk, hl⟩ := commit_apply_logged env hrm hdrafted fun w hw =>
          ⟨(hA w hw).1, (hA w hw).2.1, hc w (fun _ => hab) (hA w hw).2.2.1 (hA w hw).2.2.2⟩
        exact (hl.emit hk ..).wrote

theorem retry_wrote (attempt : TransferAttempt) (code : String) :
    Wrote A clock db [] (retry attempt code clock db) := by
  unfold retry
  split
  · exact .refl db
  · rename_i b current r hlocked
    split_ifs
    · exact .refl db
    · exact .quiet rfl rfl (requeued_changes (locked_some hlocked).1 _ _)

theorem settleMutation_wrote
    (hA : ∀ w, A w → db.ledger.Sound ∧ ∀ t, attempt.token = some t → w.drop attempt.id t)
    (h : settleMutation attempt clock db = .ok db') : Wrote A clock db [] db' := by
  unfold settleMutation at h
  split at h
  · exact Except.ok.inj h ▸ .refl db
  · rename_i b current r hlocked
    obtain ⟨ha, hid, hbm, hab, -⟩ := locked_some hlocked
    split at h
    · exact Except.ok.inj h ▸ .refl db
    · simp only [bind_ok] at h
      obtain ⟨-, -, h⟩ := h
      split_ifs at h with htoken
      · exact Except.ok.inj h ▸ .refl db
      · simp only [block_ok] at h
        obtain ⟨l', hl, rfl⟩ := h
        obtain ⟨t, ht, he⟩ := hasToken_mem (by simpa using htoken)
        rw [he] at hl
        exact (rearmCleanup_rearms hl).settled ha hbm ht (dropToken_work current t) fun w hw =>
          ⟨(hA w hw).1, fun _ => hab, hid ▸ (hA w hw).2 t he⟩

theorem abandon_wrote (h : abandon attempt clock db = .ok db') : Wrote A clock db [] db' := by
  unfold abandon at h
  split at h
  · exact Except.ok.inj h ▸ .refl db
  · rename_i b current r hlocked
    obtain ⟨ha, -, hbm, hab, -⟩ := locked_some hlocked
    simp only [bind_ok] at h
    obtain ⟨-, -, h⟩ := h
    split_ifs at h with htoken
    · exact Except.ok.inj h ▸ .refl db
    · simp only [not_or, Bool.not_eq_false, not_not] at htoken
      obtain ⟨t, ht, -⟩ := hasToken_mem htoken.2
      simp only [block_ok] at h
      obtain ⟨l', hl, rfl⟩ := h
      -- The marker of the snapshot is still in the ledger.
      exact (rearmCleanup_rearms hl).kept ha hbm fun _ _ =>
        ⟨fun _ => hab, fun htokens => absurd htokens (List.ne_nil_of_mem ht)⟩

/-! ### Maintenance -/

theorem expire_wrote (recordId : Id) (hA : ∀ w, A w → w.rule = ReleaseRule.go ∧ w.stop) :
    Wrote A clock db [] (expire recordId clock db) := by
  unfold expire
  split
  · exact .refl db
  · rename_i r hr
    obtain ⟨hrm, -⟩ := Table.get_mem hr
    split_ifs with hs
    · exact (Logged.stop dialect hA hrm hs.1 rfl).wrote
    · exact .refl db

theorem repairAttempt_repairs (l : Ledger) (a : TransferAttempt) (l' : Ledger)
    (h : repairAttempt now l a = .ok l') : Repairs now l a l' := by
  simp only [repairAttempt, block_ok, refuse_ok, found_ok, Bool.not_eq_false] at h
  obtain ⟨b, hb, r, hr, hrep, rfl⟩ := h
  refine ⟨b, r, _, hb, hr, by simp, ?_, rfl⟩
  simp only [repairable, Bool.and_eq_true, Bool.or_eq_true, decide_eq_true_eq] at hrep
  tauto

theorem repairMutations_wrote {ids : List Id} {stopped quiesced : Bool}
    (hA : ∀ w, A w → Table.Keyed TransferAttempt.id db.ledger.attempts ∧
      (stopped = true → quiesced = true → ∀ id ∈ ids, w.repair id) ∧ ∀ l b, w.recharge l b)
    (h : repairMutations ids stopped quiesced clock db = .ok db') :
    Wrote A clock db [] db' := by
  simp only [repairMutations, block_ok, refuse_ok, not_or, Bool.not_eq_false] at h
  obtain ⟨-, ⟨hstopped, hquiesced⟩, -, l', hl, rfl⟩ := h
  exact repair_wrote repairAttempt_repairs
    (fun w hw => ⟨(hA w hw).1, (hA w hw).2.1 hstopped hquiesced, (hA w hw).2.2⟩) hl

end Transfers

/-! ### All transactions -/

/-- The transaction is one of a transfer, not a command. -/
def Tx.isTransfer : Tx → Bool
  | .command _ _ => false
  | _ => true

/-- The events that the transaction removes. -/
def Tx.pruned : Tx → List Nat
  | .pruneEvents ids => ids
  | _ => []

section
variable {A : Allowance → Prop} {env : Env} {clock : Clock} {db db' : Db} {tx : Tx}

theorem Tx.run_wrote (hA : ∀ w, A w → w.rule = ReleaseRule.go ∧ db.ledger.Sound ∧ tx.Permitted w)
    (ht : tx.isTransfer = true) (h : tx.run env clock db = .ok db') :
    Wrote A clock db tx.pruned db' := by
  cases tx with
  | command p c => simp [Tx.isTransfer] at ht
  | initiate p r b => exact .of_map h fun _ => initiate_wrote
  | exposeGrants p request expiries => exact exposeGrants_wrote h
  | admitPut p r b part => exact .of_map h fun _ => admitPut_wrote
  | exposePut p handle expiry => exact exposePut_wrote h
  | finishPut handle => exact .of_map h fun _ => finishPut_wrote (fun w hw => (hA w hw).2)
  | completeUpload p r b => exact .of_map h fun _ => completeUpload_wrote
  | exposeDownload p r b expiry => exact exposeDownload_wrote h
  | acquire id cleanup => exact .of_map h fun _ => acquire_wrote
  | heartbeat a =>
    exact Except.ok.inj h ▸ .quiet rfl rfl (updateAttempts_changes _ _ fun _ => Or.inl rfl)
  | releaseLease a =>
    exact Except.ok.inj h ▸ .quiet rfl rfl (updateAttempts_changes _ _ fun _ => Or.inr rfl)
  | commit a o => exact .of_map h fun _ => commit_wrote (fun w hw => ⟨(hA w hw).1, (hA w hw).2.2⟩)
  | retry a code => exact Except.ok.inj h ▸ retry_wrote a code
  | settleMutation a => exact settleMutation_wrote (fun w hw => (hA w hw).2) h
  | abandon a => exact abandon_wrote h
  | expire id => exact Except.ok.inj h ▸ expire_wrote id fun w hw => ⟨(hA w hw).1, (hA w hw).2.2⟩
  | repairMutations ids stopped quiesced =>
    exact repairMutations_wrote (fun w hw => ⟨(hA w hw).2.1.attempts, (hA w hw).2.2⟩) h
  | prune operations attempts =>
    obtain rfl := Except.ok.inj h
    exact ⟨.pruned _ _ (.quiet rfl rfl), fun w _ => .quiet (prune_changes _ _ _ _)⟩
  | pruneEvents ids =>
    obtain rfl := Except.ok.inj h
    exact ⟨.prunedEvents ids, fun w _ => .quiet (pruneEvents_changes _ _)⟩

/-- **A transaction of a transfer writes no record but a draft, and of the other tables only the
log of events.** -/
theorem Tx.run_transferred (ht : tx.isTransfer = true) (h : tx.run env clock db = .ok db') :
    Transferred clock db tx.pruned db' :=
  (Tx.run_wrote (A := fun _ => False) (fun _ => False.elim) ht h).1

end

/-- **Every permitted transaction has an effect on the ledger.** -/
theorem Tx.run_effect {w : Allowance} {env : Env} {clock : Clock} {db db' : Db} {tx : Tx}
    (hrule : w.rule = ReleaseRule.go) (hs : db.ledger.Sound) (hp : tx.Permitted w)
    (h : tx.run env clock db = .ok db') : Effect w db.ledger db'.ledger := by
  cases tx with
  | command p c =>
    obtain ⟨⟨db₁, _⟩, h₁, rfl⟩ := map_ok.mp h
    exact (c.run_committed h₁).effect hrule hp.1 hp.2 hs.records
  | _ => exact (Tx.run_wrote (A := (· = w)) (fun _ he => he ▸ ⟨hrule, hs, hp⟩) rfl h).2 w rfl

/-- The command that a transaction runs. -/
def Tx.call : Tx → Option (Principal × Command)
  | .command p c => some (p, c)
  | _ => none

theorem step_stepped (env : Env) (db : Db) (tx : Tx × Clock) :
    Stepped dialect env tx.2 db tx.1.call tx.1.pruned (step env db tx) := by
  obtain ⟨tx, clock⟩ := tx
  refine .of_run (fun p c hc => ?_) fun hnone db' hrun => Tx.run_transferred ?_ hrun
  · cases tx <;> cases hc
    rfl
  · cases tx <;> first | rfl | cases hnone

end Hf2l.Exchange.Go
