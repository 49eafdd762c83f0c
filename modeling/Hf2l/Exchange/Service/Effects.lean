import Hf2l.Exchange.Service.Steps

/-!
# `Hf2l.Exchange.Service.Effects`: the abstract ledger covers the shared code

The commands, and the small transactions of `Attempts` that the two services share, make no
changes of the ledger but those of `Change`. What is particular to one service follows in
`Python.Effects` and `Go.Effects`.
-/

set_option autoImplicit false

namespace Hf2l.Exchange

open Lib Lib.Checked

/-! ### Commands -/

/-- **A step of a command is an effect on the ledger.** -/
theorem Service.Committed.effect {w : Allowance} {d : Dialect} {db db' : Db} {k : Service.Deed}
    (hrule : w.rule = d.rule) (hamend : ∀ l r base, w.amend l r base)
    (hstops : k.stops = true → w.stop) (hk : Table.Keyed Record.id db.ledger.records)
    (h : Service.Committed d db k db') : Effect w db.ledger db'.ledger := by
  have hstop : ∀ r, (Service.stoppedState r).terminal = true := by
    intro r
    unfold Service.stoppedState
    split_ifs <;> rfl
  cases h with
  | idle _ h | manage m _ _ h | createReference name r _ _ _ h | moveReference reference r _ _ _ h
  | renew c reference t _ h | abandon c reference _ h | complete c reference r _ _ _ _ h =>
    rw [h.ledger]
    exact .quiet (Changes.refl _)
  | limits s hs h =>
    rw [h.ledger]
    exact .quiet (Changes.one (.respace s hs))
  | register kind roles visibility h =>
    rw [h.ledger]
    have hl : (Service.addPolicy (db.withLedger (db.ledger.draw 1)) kind roles visibility).ledger =
        db.ledger.draw 1 := by
      unfold Service.addPolicy
      split_ifs <;> rfl
    rw [hl]
    exact .quiet (Changes.one (.mint 1))
  | policy policy policy' _ _ _ h =>
    rw [h.ledger]
    exact .quiet (Changes.one (.share policy.kind _))
  | create r bs policy ho _ _ _ h =>
    rw [h.ledger]
    exact .quiet (Changes.one (.insert r bs ho))
  | patch r metadata size base hr hd _ hb hq h =>
    rw [h.ledger]
    exact .quiet (Changes.one (.record r (Service.amended r metadata size base) hr
      (.amend metadata size base _ hd hb (hamend _ _ _) hq)))
  | publish r policy t hr hd _ _ hv h =>
    rw [h.ledger]
    have hc : Change w db.ledger _ :=
      .record r (Service.publishedAs r policy t) hr (.publish _ _ _ hd hv)
    have hsize : ((Service.publishedAs r policy t).metadataBytes : Int) - r.metadataBytes = 0 :=
      Int.sub_self _
    rw [hsize, Ledger.addMetadataBytes_zero] at hc
    exact .quiet (Changes.one hc)
  | withdraw r now hr _ _ h =>
    rw [h.ledger]
    show Effect w db.ledger (d.rule.stop Service.stoppedState now db.ledger [r])
    rw [← hrule]
    exact .stop [r] _ now (fun x hx => List.mem_singleton.mp hx ▸ hr) (by simp [Table.Keyed]) hstop
      (hstops rfl)
  | purge r hr ht hblobs hb _ h =>
    rw [h.ledger]
    exact .quiet (Changes.one (.remove r hr ht hblobs hb))
  | retire m now _ h =>
    rw [h.ledger]
    show Effect w db.ledger (d.rule.stop Service.stoppedState now db.ledger db.ledger.records)
    rw [← hrule]
    exact .stop db.ledger.records _ now (fun _ hx => hx) hk hstop (hstops rfl)
  | acquire reference holder leaseUntil createdAt inputs _ _ h =>
    rw [h.ledger]
    exact .quiet (Changes.one (.mint 1))

/-! ### Transactions of a transfer -/

namespace Ledger

/-- One step of the choice of the active attempt. -/
theorem active_foldl_mem {ts : List TransferAttempt} {best : Option TransferAttempt}
    {a : TransferAttempt}
    (h : ts.foldl (fun best a => match best with
      | none => some a
      | some b =>
        if b.createdAt < a.createdAt ∨ (b.createdAt = a.createdAt ∧ b.id < a.id) then some a
        else some b) best = some a) :
    a ∈ ts ∨ best = some a := by
  induction ts generalizing best with
  | nil => exact Or.inr h
  | cons t ts ih =>
    rw [List.foldl_cons] at h
    rcases ih h with h | h
    · exact Or.inl (List.mem_cons_of_mem t h)
    · cases best with
      | none =>
        simp only [Option.some.injEq] at h
        exact Or.inl (h ▸ List.mem_cons_self)
      | some b =>
        simp only at h
        split_ifs at h
        · simp only [Option.some.injEq] at h
          exact Or.inl (h ▸ List.mem_cons_self)
        · exact Or.inr h

theorem active_foldl_none {ts : List TransferAttempt} {best : Option TransferAttempt}
    (h : ts.foldl (fun best a => match best with
      | none => some a
      | some b => if b.createdAt < a.createdAt ∨ (b.createdAt = a.createdAt ∧ b.id < a.id)
          then some a else some b) best = none) : ts = [] ∧ best = none := by
  induction ts generalizing best with
  | nil => exact ⟨rfl, h⟩
  | cons t ts ih =>
    rw [List.foldl_cons] at h
    have hbest := (ih h).2
    cases best with
    | none => simp at hbest
    | some b =>
      simp only at hbest
      split_ifs at hbest

/-- The active attempt is an upload of the attachment that is still wanted. -/
theorem active_some {l : Ledger} {blobId : Id} {a : TransferAttempt}
    (h : l.active blobId = some a) :
    a ∈ l.attempts ∧ a.blobId = blobId ∧ a.operation = .upload ∧ a.state.active = true := by
  rcases active_foldl_mem h with h | h
  · simpa using List.mem_filter.mp h
  · simp at h

/-- Without an active attempt no upload of the attachment is still wanted. -/
theorem active_none {l : Ledger} {blobId : Id} (h : l.active blobId = none) :
    ∀ a ∈ l.attemptsOf blobId, a.operation = .upload → a.state.active = false := by
  intro a ha hop
  obtain ⟨ha, hb⟩ := List.mem_filter.mp ha
  have hnil := (active_foldl_none h).1
  by_contra hact
  have hmem : a ∈ ([] : List TransferAttempt) := by
    rw [← hnil]
    exact List.mem_filter.mpr
      ⟨ha, by simpa [hop] using ⟨of_decide_eq_true hb, Bool.eq_true_of_not_eq_false hact⟩⟩
  simp at hmem

end Ledger

namespace Attempts

variable {w : Allowance} {l : Ledger} {env : Env}

variable {db : Db} {a attempt : TransferAttempt} {b : Blob} {now : Time}

theorem recordAndBlob_ok {recordId attachmentId : Id} {member : Member} {p : Principal}
    {write : Bool} {rb : Record × Blob}
    (h : recordAndBlob db recordId attachmentId member p write = .ok rb) :
    rb.2 ∈ db.ledger.blobs ∧ (rb.1.state = .draft → db.ledger.InDraft rb.2) := by
  simp only [recordAndBlob, Service.attachment, block_ok, refuse_ok, found_ok, not_not] at h
  obtain ⟨r, hr, b, ⟨x, hx, hrec, rfl⟩, rfl⟩ := h
  obtain ⟨hrm, hrid⟩ := Service.record_mem hr
  exact ⟨(Table.get_mem hx).1, fun hd => ⟨r, hrm, hrid.trans (by simpa using hrec.symm), hd⟩⟩

/-- A new attempt opens an upload. -/
theorem newAttempt_initiated (b : Blob) (now : Time) :
    Initiated l b (l.newAttempt env b now).work where
  id := rfl
  blobId := rfl
  operation := rfl
  key := ⟨rfl, rfl⟩
  state := rfl
  token := rfl
  mutationTokens := rfl

theorem raiseGrant_changes (hb : b ∈ l.blobs) (ha : a ∈ l.attempts) (t : Time) :
    Changes w l (raiseGrant l b a t) := by
  refine (Changes.one (.attempt a { a with grantExpiresAt := max a.grantExpiresAt t } 0 ha ?_)).tail
    (.blob b { b with grantExpiresAt := max b.grantExpiresAt t } hb (.expose _))
  exact Move.expose t

section
variable (ha : a ∈ l.attempts)
include ha

/-- A write of the scheduling columns alone. -/
theorem keep_changes {a' : TransferAttempt} (h : a'.work = a.work) :
    Changes w l (l.putAttempt a') := by
  refine Changes.one (.attempt a a' 0 ha ?_)
  rw [h]
  exact Move.keep

theorem requeued_changes (code : String) (now : Time) :
    Changes w l (l.putAttempt (requeued a code now)) :=
  Changes.one (.attempt a (requeued a code now) 0 ha Move.unlease)

theorem withLease_changes
    (hs : a.state = .completing ∨ a.state = .verifying ∨ a.state = .cleanup) (now : Time) :
    Changes w l ((l.putAttempt (withLease env l a now)).draw 1) :=
  Changes.one (.attempt a (withLease env l a now) 1 ha (Move.lease hs))

/-- A move of the attempt, and a label for the attachment of the draft. -/
theorem relabel_changes {a' : TransferAttempt} {n : Nat} {s : TransferState}
    (hm : Move w l a.work n a'.work) (hb : b ∈ l.blobs) (hd : l.InDraft b) (hs : s ≠ .cleaned) :
    Changes w l (((l.putAttempt a').draw n).putBlob { b with state := s }) :=
  (Changes.one (.attempt a a' n ha hm)).tail (.blob b _ hb (.relabel s hd hs))

end

theorem updateAttempts_changes (c : TransferAttempt → Bool) (f : TransferAttempt → TransferAttempt)
    (hf : ∀ a, (f a).work = a.work ∨ (f a).work = a.work.unleased) :
    Changes w db.ledger (updateAttempts db c f).ledger := by
  refine Changes.one (.touch (fun a => if c a then f a else a) fun a => ?_)
  split_ifs
  · exact hf a
  · exact Or.inl rfl

theorem prune_changes (db : Db) (operations : Operation → Bool) (attempts : TransferAttempt → Bool)
    (clock : Clock) : Changes w db.ledger (prune env operations attempts clock db).ledger := by
  refine Changes.one (.forget _ fun a _ hkeep => ?_)
  simp only [Bool.not_eq_false', Bool.and_eq_true, prunable, decide_eq_true_eq] at hkeep
  exact Or.inr ⟨hkeep.1.1.1, hkeep.1.2⟩

theorem pruneEvents_changes (db : Db) (ids : List Nat) :
    Changes w db.ledger (pruneEvents ids db).ledger :=
  Changes.one (.respace _ ⟨rfl, rfl, rfl, rfl, rfl, rfl, Or.inl rfl, Or.inl rfl, Or.inl rfl,
    Or.inl rfl⟩)

/-! ### Commits -/

/-- The row without a marker, as `dropToken` writes it. -/
theorem dropToken_work (a : TransferAttempt) (t : Token) :
    (dropToken a (some t)).work = a.work.dropped t := by
  simp [dropToken, TransferAttempt.work, Work.dropped]

theorem owned_token {current : TransferAttempt}
    (h : owned current attempt now = true) :
    ∃ t, current.token = some t ∧ attempt.token = some t := by
  simp only [owned, Bool.and_eq_true, decide_eq_true_eq] at h
  obtain ⟨t, ht⟩ := Option.isSome_iff_exists.mp h.1.2
  exact ⟨t, ht, h.1.1 ▸ ht⟩

/-- What a commit has established before it writes. -/
structure Committing (w : Allowance) (l : Ledger) (r : Record) (b : Blob)
    (current attempt : TransferAttempt) (o : Outcome) (t : Token) : Prop where
  record : r ∈ l.records
  blob : b ∈ l.blobs
  row : current ∈ l.attempts
  owner : r.id = b.recordId
  paired : w.matched → current.blobId = b.id
  lease : current.token = some t
  snapshot : attempt.token = some t
  advance : w.advance current.id current.state o.state
  drop : w.drop current.id t
  draft : o ≠ .cleaned → r.state = .draft
  settled : o = .cleaned → current.mutationTokens = []

/-- The row after a commit: its execution has ended, and its marker may be gone. -/
theorem finished_work (current : TransferAttempt) {t : Token} (ht : attempt.token = some t)
    (o : Outcome) (now : Time) : ∃ y, (finished current attempt o now).work = y.ended o.state ∧
      (y = current.work ∨ y = current.work.dropped t ∧
        (o.state = .uploading ∨ o.state = .verifying)) := by
  have hsame : (finished current attempt o now).work =
      (transitioned current attempt o now).work := by
    unfold finished
    dsimp only
    split <;> rfl
  rw [hsame]
  unfold transitioned
  rw [ht]
  dsimp only
  split_ifs with h
  · exact ⟨current.work.dropped t, by rw [← dropToken_work]; rfl, Or.inr ⟨rfl, h.2⟩⟩
  · exact ⟨current.work, rfl, Or.inl rfl⟩

/-- An outcome that does not drop the marker ends the execution and no more. -/
theorem finished_work_of_ne {current : TransferAttempt} {t : Token} (ht : attempt.token = some t)
    {o : Outcome} (now : Time) (hu : o.state ≠ .uploading) (hv : o.state ≠ .verifying) :
    (finished current attempt o now).work = current.work.ended o.state := by
  obtain ⟨y, hy, hcase⟩ := finished_work current ht o now
  rcases hcase with rfl | ⟨-, h | h⟩
  · exact hy
  · exact absurd h hu
  · exact absurd h hv

namespace Committing

variable {r : Record} {b : Blob} {current attempt : TransferAttempt} {o : Outcome} {t : Token}
  {now : Time}

/-- The checks of a commit, for any allowance that permits its outcome. -/
theorem of_checks (hr : r ∈ l.records) (hrb : r.id = b.recordId) (hb : b ∈ l.blobs)
    (ha : current ∈ l.attempts) (hid : current.id = attempt.id)
    (hown : ¬ (owned current attempt now = false ∨ current.state ≠ attempt.state))
    (hdraft : o ≠ .cleaned → r.state = .draft)
    (hmarked : ¬ (o = .cleaned ∧ current.mutationTokens ≠ [])) :
    ∃ t, ∀ w : Allowance, (w.matched → current.blobId = b.id) →
      w.advance attempt.id attempt.state o.state →
      (∀ t, attempt.token = some t → w.drop attempt.id t) →
      Committing w l r b current attempt o t := by
  simp only [not_or, Bool.not_eq_false, not_not] at hown
  obtain ⟨t, hct, hat⟩ := owned_token hown.1
  refine ⟨t, fun w hab hadvance hdrop => ?_⟩
  exact
    { record := hr
      blob := hb
      row := ha
      owner := hrb
      paired := hab
      lease := hct
      snapshot := hat
      advance := hid ▸ hown.2 ▸ hadvance
      drop := hid ▸ hdrop t hat
      draft := hdraft
      settled := fun he => by simpa [he] using hmarked }

section
variable (hc : Committing w l r b current attempt o t)
include hc

section
variable (hne : o ≠ .cleaned)
include hne

theorem inDraft : l.InDraft b :=
  ⟨r, hc.record, hc.owner, hc.draft hne⟩

/-- The row of the attempt after an outcome of a draft. -/
theorem move :
    Change w l (l.putAttempt (finished current attempt o now)) := by
  obtain ⟨y, hy, hcase⟩ := finished_work current hc.snapshot o now
  refine .attempt current _ 0 hc.row ?_
  rw [hy]
  refine Move.advance t o.state y hc.lease ?_ hc.advance (hcase.imp id fun h => ⟨h.1, hc.drop⟩)
  cases o with
  | uploading handle => exact Or.inl rfl
  | verifying version => exact Or.inr (Or.inl rfl)
  | verified size sha256 => exact Or.inr (Or.inr (Or.inl rfl))
  | failed code => exact Or.inr (Or.inr (Or.inr rfl))
  | cleaned => exact absurd rfl hne

theorem relabel {s : TransferState}
    (hs : s ≠ .cleaned) :
    Changes w l ((l.putAttempt (finished current attempt o now)).putBlob { b with state := s }) :=
  (Changes.one (hc.move hne)).tail (.blob b _ hc.blob (.relabel s (hc.inDraft hne) hs))

theorem extend {s : TransferState}
    (hs : s ≠ .cleaned) {expiresAt : Time} :
    Changes w l (((l.putAttempt (finished current attempt o now)).putRecord
      { r with expiresAt }).putBlob
      { b with state := s }) := by
  have hrecord : Change w (l.putAttempt (finished current attempt o now)) _ :=
    .record r { r with expiresAt } hc.record (.extend expiresAt (hc.draft hne))
  rw [Int.sub_self, Ledger.addMetadataBytes_zero] at hrecord
  have hdraft : Ledger.InDraft
      ((l.putAttempt (finished current attempt o now)).putRecord { r with expiresAt })
      b := by
    refine ⟨{ r with expiresAt }, ?_, hc.owner, hc.draft hne⟩
    exact Table.mem_put_self hc.record rfl
  exact ((Changes.one (hc.move hne)).tail hrecord).tail (.blob b _ hc.blob (.relabel s hdraft hs))

end

end

theorem verify {size : Nat} {sha256 : String} {version : Option String}
    (hc : Committing w l r b current attempt (.verified size sha256) t) :
    Changes w l ((l.putAttempt (finished current attempt (.verified size sha256) now)).putBlob
      { b with
      objectKey := some current.objectKey, objectVersion := version, verifiedSize := some size
      verifiedSha256 := some sha256, state := .verified }) := by
  have hne : Outcome.verified size sha256 ≠ .cleaned := by simp
  have hwork : (finished current attempt (.verified size sha256) now).work =
      current.work.ended .verified :=
    finished_work_of_ne hc.snapshot now (by simp [Outcome.state]) (by simp [Outcome.state])
  have hid : (finished current attempt (.verified size sha256) now).id = current.id :=
    congrArg Work.id hwork
  have hkey : (finished current attempt (.verified size sha256) now).objectKey =
      current.objectKey :=
    congrArg Work.objectKey hwork
  have hblob : (finished current attempt (.verified size sha256) now).blobId = current.blobId :=
    congrArg Work.blobId hwork
  have hstate : (finished current attempt (.verified size sha256) now).state = .verified :=
    congrArg Work.state hwork
  refine (Changes.one (hc.move hne)).tail (.blob b _ hc.blob ?_)
  rw [← hkey]
  exact .verify _ version size sha256 (hc.inDraft hne) (Table.mem_put_self hc.row hid)
    (fun hm => hblob.trans (hc.paired hm)) hstate

theorem fail {code : String} (hc : Committing w l r b current attempt (.failed code) t)
    (hstop : w.stop) (code' : String) (now stopped : Time) :
    Effect w l (w.rule.release (l.putAttempt (finished current attempt (.failed code') now)) r
      .failed stopped) :=
  .fail r b current _ t stopped hc.record hc.owner (hc.draft (by simp)) hc.blob hc.row hc.paired
    hc.lease
    hc.advance (finished_work_of_ne hc.snapshot now (by simp [Outcome.state])
      (by simp [Outcome.state])) hstop

theorem clean (hc : Committing w l r b current attempt .cleaned t) (now : Time) :
    Changes w l (w.rule.cleanAttempt l b (finished current attempt .cleaned now)) := by
  refine Changes.one
    (.clean b current _ hc.blob hc.row hc.paired (by rw [hc.lease]; rfl) (hc.settled rfl)
    hc.advance ?_)
  exact finished_work_of_ne hc.snapshot now (by simp [Outcome.state]) (by simp [Outcome.state])

end Committing

/-! ### Repairs -/

/-- What one pass of a repair has checked and done. -/
def Repairs (now : Time) (l : Ledger) (a : TransferAttempt) (l' : Ledger) : Prop :=
  ∃ b r recover, l.blob a.blobId = some b ∧ l.record b.recordId = some r ∧
    (recover = true ↔ r.state = .draft ∧ a.state = .completing) ∧
    (r.state.terminal = true ∨ a.state = .cleanup ∨ a.state = .initiating ∨ a.state = .completing ∨
      a.state = .uploading ∧ r.state = .draft) ∧
    l' = repairBlob (l.putAttempt (repaired a b recover now)) r b recover

theorem Repairs.attempts {l l' : Ledger} (h : Repairs now l a l') :
    ∃ a' : TransferAttempt, a'.id = a.id ∧
      l'.attempts = Table.put TransferAttempt.id a' l.attempts := by
  obtain ⟨b, r, recover, -, -, -, -, rfl⟩ := h
  refine ⟨repaired a b recover now, rfl, ?_⟩
  unfold repairBlob
  split_ifs <;> rfl

/-- The loop over the rows read before it: none of them is written before its turn. -/
theorem repair_changes {f : Ledger → TransferAttempt → Except Error Ledger}
    (hf : ∀ l a l', f l a = .ok l' → Repairs now l a l') (hw : ∀ l b, w.recharge l b)
    {xs : List TransferAttempt} (hk : Table.Keyed TransferAttempt.id xs)
    (hrepair : ∀ x ∈ xs, w.repair x.id) {l l' : Ledger} (hxs : ∀ x ∈ xs, x ∈ l.attempts)
    (h : xs.foldlM f l = .ok l') : Changes w l l' := by
  induction xs generalizing l with
  | nil =>
    rw [List.foldlM_nil, pure_ok] at h
    exact h ▸ Changes.refl l
  | cons x xs ih =>
    obtain ⟨hx, hk⟩ := List.nodup_cons.mp hk
    rw [List.foldlM_cons, bind_ok] at h
    obtain ⟨m, hm, h⟩ := h
    have hr := hf l x m hm
    obtain ⟨a', ha', hattempts⟩ := hr.attempts
    have hone : Change w l m := by
      obtain ⟨b, r, recover, hb, hrr, hrec, hs, rfl⟩ := hr
      obtain ⟨hbm, hbid⟩ := Table.get_mem hb
      obtain ⟨hrm, hrid⟩ := Table.get_mem hrr
      exact .repair r b x recover now hrm hrid hbm (hxs x List.mem_cons_self) hbid.symm
        (hrepair x List.mem_cons_self) hrec hs fun _ _ => hw l b
    refine (Changes.one hone).trans (ih hk (fun y hy => hrepair y (List.mem_cons_of_mem x hy)) ?_ h)
    intro y hy
    rw [hattempts]
    refine Table.mem_put_of_ne (hxs y (List.mem_cons_of_mem x hy)) fun e => hx ?_
    rw [← ha', ← e]
    exact List.mem_map_of_mem hy

end Attempts

end Hf2l.Exchange
