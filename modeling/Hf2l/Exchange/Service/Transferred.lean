import Hf2l.Exchange.Service.Effects

/-!
# `Hf2l.Exchange.Service.Transferred`: the tables a transfer does not write

A transaction of a transfer writes attempts, attachments and the byte counters of the space.
Of the records it writes at most one draft, whose deadline it extends or which it stops, and of
the other tables it writes none but the log of events. Maintenance deletes operations and
events. `Transferred` lists these cases for both services.
-/

set_option autoImplicit false

namespace Hf2l.Exchange

open Lib Lib.Checked
open Attempts

/-- Events that are appended to the log, each no earlier than the one before, and nothing else. -/
inductive Db.Emitted (clock : Clock) (db : Db) : Nat → Db → Prop
  | none : Emitted clock db 0 db
  | more {i k : Nat} {db' : Db} (h : Emitted clock db i db') (hik : i ≤ k) (type : String)
    (principalId : Id)
    (recordId : Option Id) (payload : Fields) :
    Emitted clock db k (db'.emit type principalId recordId payload (clock k))

/-- Events are none of the tables that matter. -/
theorem Db.Emitted.same {clock : Clock} {db db' : Db} {k : Nat} (h : Db.Emitted clock db k db') :
    db.Same db' := by
  induction h with
  | none => exact Db.Same.refl db
  | more _ _ type principalId recordId payload ih => exact ih.trans (Db.Same.emit ..)

/-- The draft with another deadline, or stopped. -/
inductive Record.Dropped (r : Record) : Record → Prop
  | extend (t : Time) : Dropped r { r with expiresAt := t }
  | stop (state : RecordState) (ht : state.terminal = true) : Dropped r (r.stopped state)

/-- At most one record is written, and it is a draft. -/
inductive Ledger.Drafted (l l' : Ledger) : Prop
  | none (h : l'.records = l.records)
  | one (r r' : Record) (hr : r ∈ l.records) (hd : r.state = .draft) (hm : r.Dropped r')
    (h : l'.records = Table.put Record.id r' l.records)

/-- What a transfer does to records and to the space. -/
structure Ledger.Beside (l l' : Ledger) : Prop where
  drafted : l.Drafted l'
  space : l'.space =
    { l.space with allocated := l'.space.allocated, reclaiming := l'.space.reclaiming }

/-- What a transaction of a transfer does to the database. The index has the events that retention
removes. -/
inductive Transferred (clock : Clock) (db : Db) : List Nat → Db → Prop
  | wrote (l : Ledger) {k : Nat} {db' : Db} (h : db.ledger.Beside l)
    (he : Db.Emitted clock { db with ledger := l } k db') : Transferred clock db [] db'
  | pruned (keep : Operation → Bool) (l : Ledger) (h : db.ledger.Beside l) :
    Transferred clock db [] { db with operations := db.operations.filter keep, ledger := l }
  | prunedEvents (ids : List Nat) : Transferred clock db ids (pruneEvents ids db)

/-- The loop that stops a record writes the charge of the space. -/
theorem ReleaseRule.foldl_releaseBlob_charge (rule : ReleaseRule) (now : Time) (bs : List Blob)
    (l : Ledger) :
    (bs.foldl (rule.releaseBlob now) l).space =
      { l.space with reclaiming := (bs.foldl (rule.releaseBlob now) l).space.reclaiming } := by
  induction bs generalizing l with
  | nil => rfl
  | cons b bs ih =>
    rw [List.foldl_cons, ih, releaseBlob_space]

theorem ReleaseRule.release_counters (rule : ReleaseRule) (l : Ledger) (r : Record)
    (state : RecordState) (now : Time) :
    (rule.release l r state now).space = { l.space with
      allocated := (rule.release l r state now).space.allocated
      reclaiming := (rule.release l r state now).space.reclaiming } := by
  unfold release
  rw [foldl_releaseBlob_charge]
  rfl

/-- What is read of the ledger before are its records. -/
theorem Ledger.Drafted.of_records {l m l' : Ledger} (h : m.Drafted l')
    (he : m.records = l.records) : l.Drafted l' := by
  cases h with
  | none h => exact .none (h.trans he)
  | one r r' hr hd hm h => exact .one r r' (he ▸ hr) hd hm (by rw [h, he])

namespace Ledger.Beside

variable {l l' : Ledger}

/-- Nothing of the records and of the space is written but the charge. -/
theorem quiet (hr : l'.records = l.records)
    (hs : l'.space = { l.space with reclaiming := l'.space.reclaiming }) :
    l.Beside l' :=
  ⟨.none hr, by rw [hs]⟩

theorem refl (l : Ledger) : l.Beside l := quiet rfl rfl

theorem rearm (r : Record) (b : Blob) (a : TransferAttempt) (now : Time) :
    l.Beside (l.rearm r b a now) := by
  unfold Ledger.rearm
  split_ifs <;> exact quiet rfl rfl

theorem cleanAttempt (rule : ReleaseRule) (b : Blob) (a : TransferAttempt) :
    l.Beside (rule.cleanAttempt l b a) := by
  unfold ReleaseRule.cleanAttempt
  split_ifs <;> exact quiet rfl rfl

/-- A draft that is stopped. -/
theorem release (rule : ReleaseRule) {r : Record} (hr : r ∈ l.records) (hd : r.state = .draft)
    {state : RecordState} (ht : state.terminal = true) (now : Time) (hl : l'.records = l.records)
    (hs : l'.space = l.space) :
    l.Beside (rule.release l' r state now) where
  drafted := by
    refine .one r (r.stopped state) hr hd (.stop state ht) ?_
    rw [ReleaseRule.release_records, hl]
  space := by
    rw [ReleaseRule.release_counters, hs]

end Ledger.Beside

namespace Transferred

variable {clock : Clock} {db : Db}

theorem refl (db : Db) : Transferred clock db [] db := .wrote db.ledger (.refl _) .none

theorem of_beside {l : Ledger} (h : db.ledger.Beside l) :
    Transferred clock db [] { db with ledger := l } := .wrote l h .none

/-- Attempts and attachments are written. -/
theorem quiet {l : Ledger} (hr : l.records = db.ledger.records)
    (hs : l.space = { db.ledger.space with reclaiming := l.space.reclaiming }) :
    Transferred clock db [] { db with ledger := l } :=
  of_beside (.quiet hr hs)

end Transferred

/-- What a transaction of a transfer does: the tables it writes, and its effect on the ledger under
the allowances that permit it. -/
def Wrote (A : Allowance → Prop) (clock : Clock) (db : Db) (ids : List Nat) (db' : Db) : Prop :=
  Transferred clock db ids db' ∧ ∀ w, A w → Effect w db.ledger db'.ledger

namespace Wrote

variable {A : Allowance → Prop} {clock : Clock} {db : Db}

theorem refl (db : Db) : Wrote A clock db [] db := ⟨.refl db, fun _ _ => .quiet (Changes.refl _)⟩

/-- The transaction also answers. -/
theorem of_map {α : Type} {ids : List Nat} {x : Except Error (Db × α)} {db' : Db}
    (h : x.map (·.1) = .ok db') (hx : ∀ a, x = .ok (db', a) → Wrote A clock db ids db') :
    Wrote A clock db ids db' := by
  obtain ⟨⟨_, a⟩, h₁, rfl⟩ := map_ok.mp h
  exact hx a h₁

/-- Attempts and attachments are written. -/
theorem quiet {l : Ledger} (hr : l.records = db.ledger.records)
    (hs : l.space = { db.ledger.space with reclaiming := l.space.reclaiming })
    (h : ∀ {w}, Changes w db.ledger l) : Wrote A clock db [] { db with ledger := l } :=
  ⟨.quiet hr hs, fun _ _ => .quiet h⟩

theorem of_beside {l : Ledger} (hb : db.ledger.Beside l) (h : ∀ w, A w → Changes w db.ledger l) :
    Wrote A clock db [] { db with ledger := l } :=
  ⟨.of_beside hb, fun w hw => .quiet (h w hw)⟩

end Wrote

/-- A transaction of a transfer that has logged events up to the time `k`. -/
structure Logged (A : Allowance → Prop) (clock : Clock) (db : Db) (k : Nat) (db' : Db) : Prop where
  beside : db.ledger.Beside db'.ledger
  emitted : Db.Emitted clock { db with ledger := db'.ledger } k db'
  effect : ∀ w, A w → Effect w db.ledger db'.ledger

namespace Logged

variable {A : Allowance → Prop} {clock : Clock} {db db' : Db} {k : Nat}

theorem wrote (h : Logged A clock db k db') : Wrote A clock db [] db' :=
  ⟨.wrote _ h.beside h.emitted, h.effect⟩

theorem emit {i : Nat} (h : Logged A clock db i db') (hik : i ≤ k) (type : String)
    (principalId : Id) (recordId : Option Id) (payload : Fields) :
    Logged A clock db k (db'.emit type principalId recordId payload (clock k)) :=
  ⟨h.beside, h.emitted.more hik .., h.effect⟩

theorem of_changes {l : Ledger} (hb : db.ledger.Beside l) (h : ∀ w, A w → Changes w db.ledger l) :
    Logged A clock db 0 { db with ledger := l } :=
  ⟨hb, .none, fun w hw => .quiet (h w hw)⟩

/-- A draft is stopped. -/
theorem release (d : Dialect) {l : Ledger} {r : Record} (hr : r ∈ db.ledger.records)
    (hd : r.state = .draft) {state : RecordState} (ht : state.terminal = true)
    (hl : l.records = db.ledger.records) (hs : l.space = db.ledger.space)
    (he : ∀ w, A w → Effect w db.ledger (d.rule.release l r state (clock 1))) :
    Logged A clock db 2
      (Service.release d { db with ledger := l } r state fun i => clock (i + 1)) := by
  unfold Service.release
  rw [if_neg (by simp [hd, RecordState.terminal])]
  have h : Logged A clock db 0 { db with ledger := d.rule.release l r state (clock 1) } :=
    ⟨.release _ hr hd ht _ hl hs, .none, he⟩
  exact h.emit (Nat.zero_le 2) ..

/-- A draft is stopped, and that is all. -/
theorem stop (d : Dialect) (hA : ∀ w, A w → w.rule = d.rule ∧ w.stop) {r : Record}
    (hr : r ∈ db.ledger.records) (hd : r.state = .draft) {state : RecordState}
    (ht : state.terminal = true) :
    Logged A clock db 2 (Service.release d db r state fun i => clock (i + 1)) := by
  refine release d hr hd ht rfl rfl fun w hw => ?_
  have he : Effect w db.ledger (w.rule.stop (fun _ => state) (clock 1) db.ledger [r]) :=
    .stop [r] _ _ (fun x hx => List.mem_singleton.mp hx ▸ hr) (by simp [Table.Keyed]) (fun _ => ht)
      (hA w hw).2
  simpa [ReleaseRule.stop, (hA w hw).1, hd, RecordState.terminal] using he

end Logged

namespace Attempts

variable {env : Env} {clock : Clock} {db db' : Db}

variable {now : Time} {l : Ledger}

theorem recoverInitiation_wrote {A : Allowance → Prop} {b : Blob} {a : TransferAttempt}
    {next : Option TransferAttempt} (ha : a ∈ db.ledger.attempts) (hb : b ∈ db.ledger.blobs)
    (hab : a.blobId = b.id) (hs : a.state = .initiating)
    (h : recoverInitiation env b a now db = .ok (db', next)) : Wrote A clock db [] db' := by
  simp only [recoverInitiation, bind_ok, found_ok] at h
  obtain ⟨r, hr, h⟩ := h
  obtain ⟨hrm, hrid⟩ := Table.get_mem hr
  have hsup : ∀ {w : Allowance} (a' : TransferAttempt), a'.work = a.work.superseded →
      Changes w db.ledger (db.ledger.putAttempt a') :=
    fun a' ha' => Changes.one (.attempt a a' 0 ha (ha' ▸ Move.supersede hs))
  split_ifs at h with hd htokens
  · exact fst_ok h ▸ .quiet rfl rfl (hsup _ rfl)
  · have hdraft : db.ledger.InDraft b := ⟨r, hrm, hrid, by simpa using hd⟩
    refine fst_ok h ▸ .quiet rfl rfl ((hsup _ rfl).tail (.blob b _ hb ?_))
    exact .relabel .reserved hdraft (by simp)
  · have hdraft : db.ledger.InDraft b := ⟨r, hrm, hrid, by simpa using hd⟩
    exact fst_ok h ▸
      .quiet rfl rfl (Changes.one (.restart b a (superseded a now) _ hb hdraft ha hab hs
      (by simpa using htokens) rfl ⟨rfl, rfl, rfl, ⟨rfl, rfl⟩, rfl, rfl, rfl⟩))

/-- The attachment of a repaired attempt. -/
theorem Repairs.records_space {l' : Ledger} {a : TransferAttempt} (h : Repairs now l a l') :
    l'.records = l.records ∧ l'.space = { l.space with reclaiming := l'.space.reclaiming } := by
  obtain ⟨b, r, recover, -, -, -, -, rfl⟩ := h
  unfold repairBlob
  split_ifs <;> exact ⟨rfl, rfl⟩

theorem repair_transferred {f : Ledger → TransferAttempt → Except Error Ledger}
    (hf : ∀ l a l', f l a = .ok l' → Repairs now l a l') {xs : List TransferAttempt}
    (h : xs.foldlM f db.ledger = .ok l) : Transferred clock db [] { db with ledger := l } := by
  have hall := foldlM_ok
    (fun m => m.records = db.ledger.records ∧
      m.space = { db.ledger.space with reclaiming := m.space.reclaiming })
    xs (fun m a _ m' hm hr => ?_) ⟨rfl, rfl⟩ h
  · exact .quiet hall.1 hall.2
  · obtain ⟨hrec, hspace⟩ := (hf m a m' hr).records_space
    exact ⟨hrec.trans hm.1, by rw [hspace, hm.2]⟩

theorem repair_wrote {A : Allowance → Prop} {f : Ledger → TransferAttempt → Except Error Ledger}
    (hf : ∀ l a l', f l a = .ok l' → Repairs now l a l') {ids : List Id}
    (hA : ∀ w, A w → Table.Keyed TransferAttempt.id db.ledger.attempts ∧ (∀ id ∈ ids, w.repair id) ∧
      ∀ l b, w.recharge l b)
    (h : (db.ledger.attempts.filter (·.id ∈ ids)).foldlM f db.ledger = .ok l) :
    Wrote A clock db [] { db with ledger := l } := by
  refine ⟨repair_transferred hf h, fun w hw => .quiet ?_⟩
  obtain ⟨hk, hrepair, hcharge⟩ := hA w hw
  refine repair_changes hf hcharge (hk.filter _) ?_ ?_ h
  · exact fun x hx => hrepair x.id (of_decide_eq_true (List.mem_filter.mp hx).2)
  · exact fun x hx => (List.mem_filter.mp hx).1

/-- What `rearmCleanup` leaves after the row `a`: an attempt that is barred goes back behind the
cleanup barrier, if its record is there. -/
inductive Rearms (now : Time) (l : Ledger) (b : Blob) (a : TransferAttempt) : Ledger → Prop where
  | rearm (r : Record) (hr : l.record b.recordId = some r) (hs : a.state.barred) : Rearms now l b a
    (l.rearm r b a now)
  | keep (h : a.state.barred → l.record b.recordId = none) : Rearms now l b a l

section
variable {A : Allowance → Prop} {b : Blob} {current current' : TransferAttempt} {l l' : Ledger}

theorem Rearms.beside (h : Rearms now l b current l') : l.Beside l' := by
  cases h with
  | rearm r hr hs => exact .rearm ..
  | keep h => exact .refl l

/-- The end of a settlement: the row `current'` is written, and re-armed if it is barred. -/
theorem Rearms.settled {t : Token} (h : Rearms now (db.ledger.putAttempt current') b current' l)
    (ha : current ∈ db.ledger.attempts) (hb : b ∈ db.ledger.blobs) (ht : t ∈ current.mutationTokens)
    (ha' : current'.work = current.work.dropped t)
    (hA : ∀ w, A w → db.ledger.Sound ∧ (w.matched → current.blobId = b.id) ∧ w.drop current.id t) :
    Wrote A clock db [] { db with ledger := l } := by
  have hbeside := h.beside
  have hstate : current'.state = current.state := congrArg Work.state ha'
  refine .of_beside ⟨hbeside.drafted.of_records rfl, hbeside.space⟩ fun w hw => ?_
  obtain ⟨hsound, hab, hdrop⟩ := hA w hw
  cases h with
  | rearm r hr hs =>
    obtain ⟨hrm, hrid⟩ := Table.get_mem hr
    rw [hstate] at hs
    rw [Ledger.rearm_putAttempt]
    exact Changes.one
      (.rearm r b current current' now hrm hrid hb ha hab hs (Or.inr ⟨t, ht, hdrop, ha'⟩)
      fun _ _ => Or.inl (List.ne_nil_of_mem ht))
  | keep h =>
    refine Changes.one
      (.attempt current current' 0 ha (ha' ▸ Move.settle t ht (fun hbar => ?_) hdrop))
    obtain ⟨r, hr, he⟩ := hsound.owner b hb
    have hnone : db.ledger.record b.recordId = none := h (hstate ▸ hbar)
    rw [← he, show db.ledger.record r.id = some r from hsound.records.get_eq hr] at hnone
    cases hnone

/-- The row stays as it is, and is re-armed if it is barred. -/
theorem Rearms.kept (h : Rearms now db.ledger b current l) (ha : current ∈ db.ledger.attempts)
    (hb : b ∈ db.ledger.blobs)
    (hA : ∀ w, A w → (w.matched → current.blobId = b.id) ∧ (current.mutationTokens = [] →
      current.state.barred → (∃ r ∈ db.ledger.records, r.id = b.recordId ∧
      r.state.terminal = true) → b.pendingDeletion = false → w.recharge db.ledger b)) :
    Wrote A clock db [] { db with ledger := l } := by
  refine .of_beside h.beside fun w hw => ?_
  cases h with
  | rearm r hr hs =>
    obtain ⟨hrm, hrid⟩ := Table.get_mem hr
    refine Changes.one (.rearm r b current current now hrm hrid hb ha (hA w hw).1 hs (Or.inl rfl)
      fun hterminal hp => ?_)
    by_cases htokens : current.mutationTokens = []
    · exact Or.inr ((hA w hw).2 htokens hs ⟨r, hrm, hrid, hterminal⟩ hp)
    · exact Or.inl htokens
  | keep h => exact Changes.refl _

end

end Attempts

end Hf2l.Exchange
