import Hf2l.Jobs.Artifacts.Balance
import Hf2l.Jobs.Artifacts.LogStream
import Mathlib.Data.String.Basic

/-!
# `Hf2l.Jobs.Artifacts.LogConservation`: no byte of a log is lost track of

The cursor of a log holder, its stored chunks and its budget are three counts of one stream. They
are written in different functions, while polls and deliveries interleave and receipts are
replayed, and a budget keeps only a start of a receipt. `Conserved` says how the counts agree for
one holder. It rests on one fact about a step: the service either leaves its tables as they were,
or a holder accepts one receipt (`Moved`).

A holder's chunks are known by job, attempt number and component. The streams of two holders are
apart since no two holders have the attempt and the component in common (`Apart`).
-/

set_option autoImplicit false

namespace Hf2l.Jobs.Artifacts

open Lib Lib.Checked Lib.Process Jobs.Scheduler

/-! ### What a holder has -/

/-- The columns of a holder that its stream depends on. -/
structure HolderRow where
  jobId : Id
  attemptId : Id
  componentId : String
  logResourceId : Option ResourceId

def LogDb.row (w : LogDb) : Holder → Option HolderRow
  | .allocation id =>
    (Table.get (·.id) id w.db.allocations).map fun a =>
      ⟨a.jobId, a.attemptId, a.componentId, a.details.logResourceId⟩
  | .execution id =>
    (Table.get (·.id) id w.db.resources).bind fun r =>
      if r.kind = "external_execution" then
        r.attemptId.map fun attemptId =>
          ⟨r.jobId, attemptId, r.componentId, (w.executions id).logResourceId⟩
      else none

section
variable (w : LogDb) (r : HolderRow)

/-- The attempt of a holder. -/
def LogDb.attempt : Option Attempt :=
  (Table.get (·.id) r.attemptId w.db.attempts).filter fun a => a.jobId == r.jobId

/-- The chunk is of the holder's stream. -/
def LogDb.owns (c : LogChunk) : Bool :=
  c.jobId == r.jobId && c.component == r.componentId && (w.attempt r).any fun a =>
    a.number == c.attemptNumber

/-- The bytes of the chunks of a holder. -/
def LogDb.stored : Int :=
  Table.total (fun c => (c.data.utf8ByteSize : Int)) (w.db.chunks.filter (w.owns r))

/-- The budget that is the holder's own. -/
def LogDb.budget : Option Resource :=
  r.logResourceId.bind fun id => (w.attempt r).bind fun a =>
    (Table.get (·.id) id w.db.resources).filter fun b => ownsLogBudget b r.jobId a r.componentId

end

/-- The receipts that a holder has accepted, in order. -/
def LogDb.acceptedOf (w : LogDb) (h : Holder) : List LogReceipt :=
  (w.accepted.filter fun x => decide (x.1 = h)).map (·.2)

/-- The bytes of some receipts. -/
def receivedBytes (receipts : List LogReceipt) : Int := Table.total LogReceipt.size receipts

/-- Each receipt starts where the one before it ends. -/
def Consecutive : Int → List LogReceipt → Prop
  | _, [] => True
  | start, r :: rest =>
    r.offset = start ∧ r.nextOffset = start + r.size ∧ Consecutive r.nextOffset rest

/-- `retention_reservation_bytes` of a budget. -/
def budgetMaximum (b : Resource) : Nat := b.details.retentionReservationBytes.getD 0

/-- The counts of a holder's stream agree. -/
structure Conserved (w : LogDb) (h : Holder) (r : HolderRow) : Prop where
  consecutive : Consecutive 0 (w.acceptedOf h)
  offset : (w.cursors h).offset = receivedBytes (w.acceptedOf h)
  bounded : 0 ≤ (w.cursors h).offset ∧ (w.cursors h).offset ≤ maxCanonicalLogBytes
  conserved : w.stored r + (w.cursors h).droppedBytes = (w.cursors h).offset
  consumed : ∀ b, w.budget r = some b → w.stored r = b.details.logConsumedBytes
  within : ∀ b, w.budget r = some b →
    b.details.logConsumedBytes ≤ budgetMaximum b ∧ b.details.logConsumedBytes ≤ 2 ^ 20
  exhausted : (w.cursors h).budgetExhausted = true →
    ∃ b, w.budget r = some b ∧ b.details.logBudgetExhausted = true

/-! ### What a budget keeps of a chunk -/

theorem takeBytes_size (cs : List Char) (room : Int) (h : 0 ≤ room) :
    ((String.ofList (takeBytes cs room)).utf8ByteSize : Int) ≤ room := by
  rw [String.utf8ByteSize_ofList]
  induction cs generalizing room with
  | nil => simpa [takeBytes] using h
  | cons c cs ih =>
    unfold takeBytes
    split
    case isTrue hfits =>
      have hrest := ih (room - c.utf8Size) (by omega)
      rw [String.utf8Len_cons]
      omega
    case isFalse => simpa using h

theorem keptContent_size (d : ResourceDetails) (content : String) (remaining : Int)
    (h : 0 ≤ remaining) :
    ((keptContent d content remaining).utf8ByteSize : Int) ≤ remaining := by
  unfold keptContent
  split
  case isTrue => simpa using h
  case isFalse =>
    split
    case isTrue =>
      split
      case isTrue hmarker =>
        have hstart :=
          takeBytes_size content.toList (remaining - exhaustedMarker.utf8ByteSize) (by omega)
        rw [String.utf8ByteSize_append]
        unfold utf8Prefix
        omega
      case isFalse => exact takeBytes_size content.toList remaining h
    case isFalse hfits => omega

/-- What a receipt of so many bytes, of which `n` are stored, does to a budget. -/
structure Spent (b b' : Resource) (size n : Nat) : Prop where
  row : b' = { b with details := b'.details }
  attemptNumber : b'.details.attemptNumber = b.details.attemptNumber
  componentId : b'.details.componentId = b.details.componentId
  maximum : budgetMaximum b' = budgetMaximum b
  consumed : b'.details.logConsumedBytes = b.details.logConsumedBytes + n
  within : b'.details.logConsumedBytes ≤ budgetMaximum b
  bound : budgetMaximum b ≤ 2 ^ 20
  exhausted : b.details.logBudgetExhausted = true → n = 0 ∧ b'.details.logBudgetExhausted = true
  dropped : n < size → b'.details.logBudgetExhausted = true

variable {db : Db} {n : Nat} {r : HolderRow} {w w' : LogDb} {identity : LogIdentity} {nm : Naming}
  {receipt : LogReceipt} {h : Holder} {s : LogService}

/-- The id of a new chunk is new, so a new chunk is never a replay. -/
theorem chargeBudget_ok {db' : Db} {project : Project} {chunk c' : LogChunk} {b : Resource}
    (hnew : ∀ c ∈ db.chunks, c.id ≠ chunk.id)
    (h : chargeBudget db project chunk b = .ok (c', db')) :
    ∃ b', db' = updateResource db b.id (fun _ => b') ∧
      c' = { chunk with data := c'.data, chargedBytes := 0 } ∧
      Spent b b' chunk.data.utf8ByteSize c'.data.utf8ByteSize := by
  have habsent : Table.get (·.id) chunk.id db.chunks = none := by
    unfold Table.get
    rw [List.find?_eq_none]
    intro c hc
    simpa using hnew c hc
  simp only [chargeBudget, refuse_ok] at h
  obtain ⟨-, hledger, h⟩ := h
  split at h
  case isTrue =>
    rw [habsent] at h
    cases h
  case isFalse =>
    simp only [refuse_ok, pure_ok, Prod.mk.injEq] at h
    obtain ⟨-, rfl, rfl⟩ := h
    simp only [not_or, Nat.not_lt, not_not] at hledger
    obtain ⟨hconsumed, -, -, -, hbound⟩ := hledger
    have hsize := keptContent_size b.details chunk.data
      ((b.details.retentionReservationBytes.getD 0 : Int) - b.details.logConsumedBytes) (by omega)
    refine ⟨_, rfl, rfl, ⟨rfl, rfl, rfl, rfl, rfl, ?_, hbound, ?_, ?_⟩⟩
    · show b.details.logConsumedBytes + _ ≤ b.details.retentionReservationBytes.getD 0
      omega
    · intro hex
      constructor
      · simp [keptContent, hex]
      · simp [consumedRow, hex]
    · intro hlt
      -- Only what is cut, or kept out, is shorter than it was.
      simp only [consumedRow, Bool.or_eq_true, decide_eq_true_eq]
      by_cases hex : b.details.logBudgetExhausted = true
      · exact .inl (.inl hex)
      · by_cases hcut : (chunk.data.utf8ByteSize : Int) >
            (b.details.retentionReservationBytes.getD 0 : Int) - b.details.logConsumedBytes
        · exact .inl (.inr (.inl hcut))
        · simp [keptContent, hex, hcut] at hlt

/-! ### Storing a receipt -/

/-- The tables that holders are read from, once a receipt is stored. -/
structure Appended (w : LogDb) (db : Db) (r : HolderRow) (attempt : Attempt) (size n : Nat) :
    Prop where
  chunk : ∃ c, db.chunks = w.db.chunks ++ [c] ∧ c.jobId = r.jobId ∧
    c.attemptNumber = attempt.number ∧ c.component = r.componentId ∧ c.data.utf8ByteSize = n
  attempts : db.attempts = w.db.attempts
  allocations : db.allocations = w.db.allocations
  resources : (r.logResourceId = none ∧ db.resources = w.db.resources ∧ n = size) ∨
    ∃ id b b', r.logResourceId = some id ∧ Table.get (·.id) id w.db.resources = some b ∧
      ownsLogBudget b r.jobId attempt r.componentId = true ∧
      db.resources = Table.modify (·.id) id (fun _ => b') w.db.resources ∧ Spent b b' size n

theorem ownedLogBudget_ok {jobId : Id} {attempt : Attempt} {component : String}
    {logResourceId : Option ResourceId} {budget : Option Resource}
    (h : ownedLogBudget db jobId attempt component logResourceId = .ok budget) :
    (logResourceId = none ∧ budget = none) ∨
      ∃ id b, logResourceId = some id ∧ Table.get (·.id) id db.resources = some b ∧
        ownsLogBudget b jobId attempt component = true ∧ budget = some b := by
  cases logResourceId with
  | none => exact .inl ⟨rfl, (pure_ok.mp h).symm⟩
  | some id =>
    simp only [ownedLogBudget] at h
    split at h
    case h_1 => cases h
    case h_2 b hb =>
      split at h
      case isTrue howns => exact .inr ⟨id, b, rfl, hb, howns, (pure_ok.mp h).symm⟩
      case isFalse => cases h

theorem newChunk_new (db : Db) (jobId : Id) (attempt : Attempt) (component content : String) :
    ∀ c ∈ db.chunks, c.id ≠ (newChunk db jobId attempt component content).id :=
  fun _ hc => Nat.ne_of_lt (Table.lt_fresh hc)

theorem appendLogInTx_ok {project : Project} {attempt : Attempt} {content : String}
    (h : appendLogInTx w.db project r.jobId attempt r.componentId r.logResourceId content =
      .ok (n, db)) :
    Appended w db r attempt content.utf8ByteSize n := by
  simp only [appendLogInTx, block_ok] at h
  obtain ⟨budget, hbudget, -, ⟨c', db₁⟩, hcharge, rfl, rfl⟩ := h
  simp only [chargeLogInTransaction, guard_ok] at hcharge
  obtain ⟨-, hcharge⟩ := hcharge
  obtain ⟨hnone, rfl⟩ | ⟨id, b, hid, hb, howns, rfl⟩ := ownedLogBudget_ok hbudget
  · -- Without a budget the project pays for all of it.
    simp only [newChunk, ne_eq, not_true_eq_false, if_false, block_ok] at hcharge
    obtain ⟨db₂, hreserve, rfl, rfl⟩ := hcharge
    obtain ⟨-, rfl⟩ := projectReserve_ok hreserve
    exact ⟨⟨_, rfl, rfl, rfl, rfl, rfl⟩, rfl, rfl, .inl ⟨hnone, rfl, rfl⟩⟩
  · obtain ⟨b', rfl, hc', hspent⟩ := chargeBudget_ok (newChunk_new w.db _ _ _ _) hcharge
    have hkey : b.id = id := (Table.get_mem hb).2
    refine ⟨⟨c', rfl, ?_, ?_, ?_, rfl⟩, rfl, rfl, .inr ⟨id, b, b', hid, hb, howns, ?_, hspent⟩⟩
    · rw [hc']; rfl
    · rw [hc']; rfl
    · rw [hc']; rfl
    · rw [← hkey]; rfl

/-! ### One holder's receipt -/

section
variable {w : LogDb} {db : Db} {r r' : HolderRow} {attempt : Attempt} {size n : Nat} {h h' : Holder}
  {receipt : LogReceipt} {cursor : LogStream}

section
variable (ha : Appended w db r attempt size n)
include ha

theorem Appended.attempt_eq (r' : HolderRow) :
    (w.accept db h receipt cursor).attempt r' = w.attempt r' := by
  show (Table.get (·.id) r'.attemptId db.attempts).filter _ = _
  rw [ha.attempts]
  rfl

theorem Appended.row_eq (h' : Holder) : (w.accept db h receipt cursor).row h' = w.row h' := by
  cases h' with
  | allocation id =>
    show (Table.get (·.id) id db.allocations).map _ = _
    rw [ha.allocations]
    rfl
  | execution id =>
    show (Table.get (·.id) id db.resources).bind _ = (Table.get (·.id) id w.db.resources).bind _
    obtain ⟨-, hres, -⟩ | ⟨id₀, b, b', -, hb, -, hres, hspent⟩ := ha.resources
    · rw [hres]
      rfl
    · -- The budget of the holder keeps the columns that a holder is read from.
      have hid : b'.id = id₀ := by rw [hspent.row]; exact (Table.get_mem hb).2
      rw [hres, Table.get_modify (fun _ _ => hid)]
      by_cases heq : id = id₀
      · subst heq
        rw [if_pos rfl, hb, hspent.row]
        rfl
      · rw [if_neg heq]
        rfl

/-- The bytes of a holder, with one chunk more. -/
theorem Appended.stored_eq (r' : HolderRow) : (w.accept db h receipt cursor).stored r' =
      w.stored r' + if r'.jobId = r.jobId ∧ r'.componentId = r.componentId ∧
        (w.attempt r').any (fun a => a.number == attempt.number) = true then (n : Int) else 0 := by
  obtain ⟨c, hchunks, hjob, hnumber, hcomponent, hsize⟩ := ha.chunk
  have howns : (w.accept db h receipt cursor).owns r' = w.owns r' := by
    funext c
    unfold LogDb.owns
    rw [ha.attempt_eq]
  show Table.total _ (db.chunks.filter ((w.accept db h receipt cursor).owns r')) = _
  rw [howns, hchunks, List.filter_append, Table.total_append]
  congr 1
  have hc : w.owns r' c = true ↔ r'.jobId = r.jobId ∧ r'.componentId = r.componentId ∧
      (w.attempt r').any (fun a => a.number == attempt.number) = true := by
    unfold LogDb.owns
    rw [hjob, hcomponent, hnumber, Bool.and_eq_true, Bool.and_eq_true, beq_iff_eq, beq_iff_eq,
      and_assoc]
    exact and_congr eq_comm (and_congr eq_comm Iff.rfl)
  by_cases hown : w.owns r' c = true
  · rw [List.filter_cons_of_pos hown, if_pos (hc.mp hown)]
    simp [hsize]
  · rw [List.filter_cons_of_neg hown, if_neg (fun hall => hown (hc.mpr hall))]
    simp

end

/-- What storing `n` bytes of a receipt does to the budget that a holder may have. -/
def Paid (before after : Option Resource) (size n : Nat) : Prop :=
  (after = before ∧ size = 0 ∧ n = 0) ∨ (before = none ∧ after = none ∧ n = size) ∨
    ∃ b b', before = some b ∧ after = some b' ∧ Spent b b' size n

theorem Spent.owns_eq {b b' : Resource} (hs : Spent b b' size n) (jobId : Id) (a : Attempt)
    (component : String) :
    ownsLogBudget b' jobId a component = ownsLogBudget b jobId a component := by
  unfold ownsLogBudget
  rw [hs.attemptNumber, hs.componentId, hs.row]

theorem owns_component {b : Resource} {jobId : Id} {a : Attempt} {component : String}
    (ho : ownsLogBudget b jobId a component = true) :
    b.attemptId = some a.id ∧ b.componentId = component := by
  simp only [ownsLogBudget, Bool.and_eq_true, beq_iff_eq] at ho
  tauto

/-- A budget of a holder, after the row with one id was written over. -/
theorem Appended.budget_eq (ha : Appended w db r attempt size n) {id : ResourceId} {b b' : Resource}
    (hb : Table.get (·.id) id w.db.resources = some b)
    (hres : db.resources = Table.modify (·.id) id (fun _ => b') w.db.resources)
    (hs : Spent b b' size n) (r' : HolderRow) :
    (w.accept db h receipt cursor).budget r' =
      if r'.logResourceId = some id then
        (w.attempt r').bind fun a => if ownsLogBudget b r'.jobId a r'.componentId then
          some b' else none
      else w.budget r' := by
  have hid : b'.id = id := by rw [hs.row]; exact (Table.get_mem hb).2
  unfold LogDb.budget
  rw [ha.attempt_eq]
  show (r'.logResourceId.bind fun id => (w.attempt r').bind
    fun a => (Table.get (·.id) id db.resources).filter _) = _
  cases hlog : r'.logResourceId with
  | none => rfl
  | some id' =>
    simp only [Option.bind_some, hres, Option.some.injEq]
    rw [Table.get_modify (fun _ _ => hid)]
    by_cases heq : id' = id
    · subst heq
      simp only [if_true, hb, Option.map_some, Option.filter_some, hs.owns_eq]
    · simp only [if_neg heq]

/-- The holder of a receipt pays for what is stored. -/
theorem Appended.paid (ha : Appended w db r attempt size n)
    (hattempt : w.attempt r = some attempt) :
    Paid (w.budget r) ((w.accept db h receipt cursor).budget r) size n := by
  obtain ⟨hnone, -, rfl⟩ | ⟨id, b, b', hid, hb, howns, hres, hs⟩ := ha.resources
  · have hfree (w' : LogDb) : w'.budget r = none := by
      unfold LogDb.budget
      rw [hnone]
      rfl
    exact .inr (.inl ⟨hfree w, hfree _, rfl⟩)
  · have hbefore : w.budget r = some b := by
      simp [LogDb.budget, hid, hattempt, hb, howns]
    refine .inr (.inr ⟨b, b', hbefore, ?_, hs⟩)
    rw [ha.budget_eq hb hres hs, if_pos hid, hattempt, Option.bind_some, if_pos howns]

/-- The attempt of a holder is the one that its row names. -/
theorem LogDb.attempt_id {a : Attempt} (h : w.attempt r = some a) :
    a ∈ w.db.attempts ∧ a.id = r.attemptId ∧ a.jobId = r.jobId := by
  unfold LogDb.attempt at h
  rw [Option.filter_eq_some_iff, beq_iff_eq] at h
  exact ⟨(Table.get_mem h.1).1, (Table.get_mem h.1).2, h.2⟩

/-- The rows of attempts are told apart by job and number. -/
def Numbered (db : Db) : Prop := Table.Keyed (fun a : Attempt => (a.jobId, a.number)) db.attempts

/-- A holder with another attempt or component keeps what it has. -/
theorem Appended.other (ha : Appended w db r attempt size n) (hattempt : w.attempt r = some attempt)
    (hnumbered : Numbered w.db)
    (hne : ¬ (r'.attemptId = r.attemptId ∧ r'.componentId = r.componentId)) :
    (w.accept db h receipt cursor).stored r' = w.stored r' ∧
      (w.accept db h receipt cursor).budget r' = w.budget r' := by
  obtain ⟨hmem, hid, hjob⟩ := LogDb.attempt_id hattempt
  constructor
  · rw [ha.stored_eq, if_neg, Int.add_zero]
    rintro ⟨hjobs, hcomponent, hany⟩
    obtain ⟨a, ha', hnumber⟩ : ∃ a, w.attempt r' = some a ∧
        (a.number == attempt.number) = true := by
      cases hattempt' : w.attempt r' with
      | none => simp [hattempt'] at hany
      | some a => exact ⟨a, rfl, by simpa [hattempt'] using hany⟩
    obtain ⟨hmem', hid', hjob'⟩ := LogDb.attempt_id ha'
    have hsame : a = attempt := hnumbered.eq_of_key_eq hmem' hmem (by
      rw [hjob, hjob', hjobs, beq_iff_eq.mp hnumber])
    exact hne ⟨by rw [← hid, ← hid', hsame], hcomponent⟩
  · obtain ⟨-, hres, -⟩ | ⟨id, b, b', -, hb, howns, hres, hs⟩ := ha.resources
    · unfold LogDb.budget
      rw [ha.attempt_eq]
      show (r'.logResourceId.bind fun id => (w.attempt r').bind fun a =>
        (Table.get (·.id) id db.resources).filter _) = _
      rw [hres]
    · rw [ha.budget_eq hb hres hs]
      by_cases hlog : r'.logResourceId = some id
      · -- Another holder may name this budget, and it is not the owner.
        have hnot : ∀ a, w.attempt r' = some a →
            ownsLogBudget b r'.jobId a r'.componentId = false := by
          intro a ha'
          by_contra ho
          have hown' := owns_component (Bool.not_eq_false _ ▸ ho)
          have hown := owns_component howns
          have hids : a.id = attempt.id := Option.some.inj (hown'.1.symm.trans hown.1)
          exact hne ⟨by rw [← (LogDb.attempt_id ha').2.1, hids, hid], hown'.2.symm.trans hown.2⟩
        rw [if_pos hlog]
        unfold LogDb.budget
        rw [hlog, Option.bind_some]
        cases ha' : w.attempt r' with
        | none => rfl
        | some a => simp [hb, Option.filter_some, hnot a ha']
      · rw [if_neg hlog]

/-! ### Accepted receipts -/

/-- How a receipt of so many bytes, of which `n` are stored, changes the tables. -/
inductive StoredAs (w : LogDb) (r : HolderRow) : Db → Nat → Nat → Prop where
  | empty : StoredAs w r w.db 0 0
  | appended {db : Db} {attempt : Attempt} {size n : Nat} (hattempt : w.attempt r = some attempt)
      (ha : Appended w db r attempt size n) : StoredAs w r db size n

theorem StoredAs.row_eq (hs : StoredAs w r db size n) (h' : Holder) :
    (w.accept db h receipt cursor).row h' = w.row h' := by
  cases hs with
  | empty => cases h' <;> rfl
  | appended _ ha => exact ha.row_eq h'

variable (h receipt cursor) in
theorem StoredAs.stored_eq (hs : StoredAs w r db size n) :
    (w.accept db h receipt cursor).stored r = w.stored r + n := by
  cases hs with
  | empty => exact (Int.add_zero _).symm
  | appended hattempt ha => rw [ha.stored_eq, if_pos ⟨rfl, rfl, by simp [hattempt]⟩]

variable (h receipt cursor) in
theorem StoredAs.paid (hs : StoredAs w r db size n) :
    Paid (w.budget r) ((w.accept db h receipt cursor).budget r) size n := by
  cases hs with
  | empty => exact .inl ⟨rfl, rfl, rfl⟩
  | appended hattempt ha => exact ha.paid hattempt

variable (h receipt cursor) in
theorem StoredAs.other (hs : StoredAs w r db size n) (hnumbered : Numbered w.db)
    (hne : ¬ (r'.attemptId = r.attemptId ∧ r'.componentId = r.componentId)) :
    (w.accept db h receipt cursor).stored r' = w.stored r' ∧
      (w.accept db h receipt cursor).budget r' = w.budget r' := by
  cases hs with
  | empty => exact ⟨rfl, rfl⟩
  | appended hattempt ha => exact ha.other hattempt hnumbered hne

theorem StoredAs.numbered (hs : StoredAs w r db size n) (hnumbered : Numbered w.db) :
    Numbered db := by
  cases hs with
  | empty => exact hnumbered
  | appended _ ha =>
    unfold Numbered
    rwa [ha.attempts]

theorem appendReceipt_ok {project : Project} {attempt : Option Attempt} {absent : Refusal}
    (hattempt : attempt = none ∨ attempt = w.attempt r)
    (hr : appendReceipt w.db project r.jobId attempt r.componentId r.logResourceId receipt absent =
      .ok (n, db)) :
    StoredAs w r db receipt.content.utf8ByteSize n := by
  unfold appendReceipt at hr
  split at hr
  case isTrue hempty =>
    obtain ⟨rfl, rfl⟩ := Prod.mk.inj (pure_ok.mp hr)
    rw [hempty]
    exact .empty
  case isFalse =>
    split at hr
    case h_1 => cases hr
    case h_2 a => exact .appended (hattempt.resolve_left (by simp)).symm (appendLogInTx_ok hr)

end

/-- A holder accepts a receipt and stores `n` bytes of it. -/
structure Moved (w w' : LogDb) (h : Holder) (r : HolderRow) (receipt : LogReceipt) (n : Nat) :
    Prop where
  row : w.row h = some r
  starts : receipt.offset = (w.cursors h).offset
  ends : receipt.nextOffset = Word.wrap (receipt.offset + receipt.size)
  bound : receipt.nextOffset ≤ maxCanonicalLogBytes
  size : receipt.size ≤ maxLogChunkBytes
  stored : ∃ db cursor, w' = w.accept db h receipt cursor ∧
    StoredAs w r db receipt.content.utf8ByteSize n ∧ cursor.offset = receipt.nextOffset ∧
    cursor.droppedBytes = (w.cursors h).droppedBytes + (receipt.size - n) ∧
    cursor.budgetExhausted = ((w.cursors h).budgetExhausted || decide (receipt.size - n > 0))

theorem LogReceipt.validate_ok {offset : Int} (h : receipt.validate nm identity offset = .ok ()) :
    receipt.offset = offset ∧ receipt.nextOffset = Word.wrap (offset + receipt.size) ∧
      receipt.nextOffset ≤ maxCanonicalLogBytes ∧ receipt.size ≤ maxLogChunkBytes := by
  simp only [LogReceipt.validate, block_ok, refuse_ok] at h
  obtain ⟨-, h, -⟩ := h
  simp only [not_or, not_not, not_lt] at h
  exact ⟨h.2.2.1, h.2.2.2.2.1, h.2.2.2.2.2.1, h.2.2.2.2.2.2⟩

/-- The attempt of an identity is that of the holder that the identity is of. -/
theorem attemptFor_eq (hjob : r.jobId = identity.jobId)
    (hattempt : r.attemptId = identity.attemptId) :
    attemptFor w.db identity = none ∨ attemptFor w.db identity = w.attempt r := by
  unfold attemptFor LogDb.attempt
  rw [hjob, hattempt]
  cases Table.get (·.id) identity.attemptId w.db.attempts with
  | none => exact .inl rfl
  | some a =>
    simp only [Option.filter_some]
    by_cases hj : a.jobId = identity.jobId <;> by_cases he : (a.epoch : Int) = identity.epoch <;>
      simp [hj, he]

theorem ingest_ok {now : Time} {allocationId : Id} {projectId : String} {offset : Int}
    {x : Ingested} (hvalid : receipt.validate nm identity offset = .ok ())
    (h : ingest nm now w allocationId projectId identity offset receipt = .ok (x, w')) :
    w' = w ∨ ∃ h r n, Moved w w' h r receipt n := by
  have hunmoved {y : Ingested}
      (h : (pure (y, w) : Except Refusal (Ingested × LogDb)) = .ok (x, w')) : w' = w :=
    (Prod.mk.inj (pure_ok.mp h)).2.symm
  unfold ingest at h
  split at h
  case h_1 project row hproject hrow =>
    split at h
    case isTrue => exact .inl (hunmoved h)
    case isFalse hidentity =>
      dsimp only at h
      split at h
      case isTrue => exact .inl (hunmoved h)
      case isFalse hcursor =>
        simp only [not_or, not_not] at hidentity hcursor
        obtain rfl := hidentity.1
        simp only [block_ok] at h
        obtain ⟨⟨n, db⟩, happend, -, rfl⟩ := h
        obtain ⟨hstart, hend, hbound, hsize⟩ := LogReceipt.validate_ok hvalid
        refine .inr ⟨.allocation allocationId,
          ⟨row.jobId, row.attemptId, row.componentId, row.details.logResourceId⟩,
          n, ?_, hstart.trans hcursor.1.symm, hstart ▸ hend, hbound, hsize, _, _, rfl, ?_, rfl,
            rfl, rfl⟩
        · simp [LogDb.row, hrow]
        · exact appendReceipt_ok (attemptFor_eq rfl rfl) happend
  case h_2 => exact .inl (hunmoved h)

theorem ownsExecution_row {nodeId : String} {resource : Resource}
    (hget : Table.get (·.id) resource.id w.db.resources = some resource)
    (ho : ownsExecution nm resource (w.executions resource.id) identity nodeId = true) :
    w.row (.execution resource.id) = some ⟨identity.jobId, identity.attemptId, resource.componentId,
      (w.executions resource.id).logResourceId⟩ := by
  simp only [ownsExecution, Bool.and_eq_true, beq_iff_eq] at ho
  obtain ⟨⟨⟨⟨⟨⟨⟨⟨⟨⟨hkind, hjob⟩, hattempt⟩, -⟩, -⟩, -⟩, -⟩, -⟩, -⟩, -⟩, -⟩ := ho
  simp [LogDb.row, hget, hkind, hattempt, hjob]

theorem appendExternalLogs_ok {now : Time} {resourceId : ResourceId} {nodeId : String}
    {x : Delivered}
    (h : appendExternalLogs nm now w identity receipt resourceId nodeId = .ok (x, w')) :
    w' = w ∨ ∃ h r n, Moved w w' h r receipt n := by
  simp only [appendExternalLogs, block_ok] at h
  obtain ⟨-, hvalid, h⟩ := h
  split at h
  case h_1 => cases h
  case h_2 job hjob =>
    split at h
    case h_2 => cases h
    case h_1 project resource attempt hproject hresource hattempt =>
      obtain rfl : resource.id = resourceId := (Table.get_mem hresource).2
      simp only [refuse_ok, Bool.not_eq_true', Bool.not_eq_false] at h
      obtain ⟨howns, -, h⟩ := h
      simp only [deliver, refuse_ok] at h
      obtain ⟨-, h⟩ := h
      split at h
      case isTrue => exact .inl (Prod.mk.inj (pure_ok.mp h)).2.symm
      case isFalse =>
        simp only [refuse_ok, not_not, block_ok] at h
        obtain ⟨hstart, -, ⟨n, db⟩, happend, -, rfl⟩ := h
        obtain ⟨-, hend, hbound, hsize⟩ := LogReceipt.validate_ok hvalid
        refine .inr ⟨.execution resource.id,
          ⟨identity.jobId, identity.attemptId, resource.componentId,
          (w.executions resource.id).logResourceId⟩, n, ownsExecution_row hresource howns, hstart,
          hend, hbound, hsize, _, _, rfl, ?_, rfl, rfl, rfl⟩
        refine appendReceipt_ok (.inr ?_) happend
        rw [← hattempt]
        exact (attemptFor_eq rfl rfl).resolve_left (by simp [hattempt])

/-! ### The counts agree after a receipt -/

theorem consecutive_concat {start : Int} {receipts : List LogReceipt}
    (h : Consecutive start receipts) (hstart : receipt.offset = start + receivedBytes receipts)
    (hend : receipt.nextOffset = receipt.offset + receipt.size) :
    Consecutive start (receipts ++ [receipt]) := by
  induction receipts generalizing start with
  | nil =>
    have hstart' : receipt.offset = start := by simpa [receivedBytes] using hstart
    exact ⟨hstart', hstart' ▸ hend, trivial⟩
  | cons x rest ih =>
    refine ⟨h.1, h.2.1, ih h.2.2 ?_⟩
    rw [hstart, h.2.1]
    simp only [receivedBytes, Table.total_cons]
    omega

theorem LogDb.acceptedOf_accept (w : LogDb) (db : Db) (h : Holder) (receipt : LogReceipt)
    (cursor : LogStream) (h' : Holder) :
    (w.accept db h receipt cursor).acceptedOf h' = w.acceptedOf h' ++ if h = h' then
      [receipt] else [] := by
  show ((w.accepted ++ [(h, receipt)]).filter _).map _ = _
  rw [List.filter_append, List.map_append]
  by_cases heq : h = h' <;> simp [LogDb.acceptedOf, heq]

section
variable {w w' : LogDb} {h h' : Holder} {r r' : HolderRow} {receipt : LogReceipt} {n : Nat}

/-- The holder that accepts a receipt. -/
theorem Conserved.moved (hc : Conserved w h r) (hm : Moved w w' h r receipt n) :
    Conserved w' h r := by
  obtain ⟨db, cursor, rfl, hs, hoffset, hdropped, hexhausted⟩ := hm.stored
  obtain ⟨hlow, hhigh⟩ := hc.bounded
  have hmax : maxCanonicalLogBytes = 1048576 := rfl
  have hchunk : maxLogChunkBytes = 65536 := rfl
  have hsizes := hm.size
  have hnonneg : 0 ≤ receipt.size := Int.natCast_nonneg _
  -- Within the bounds of a stream, the `int64` sum is the sum.
  have hend : receipt.nextOffset = receipt.offset + receipt.size := by
    rw [hm.ends, Word.wrap_eq]
    unfold Word.Fits
    rw [hm.starts]
    omega
  have hcursor : (w.accept db h receipt cursor).cursors h = cursor := Function.update_self ..
  have haccepted : (w.accept db h receipt cursor).acceptedOf h = w.acceptedOf h ++ [receipt] := by
    rw [LogDb.acceptedOf_accept, if_pos rfl]
  have hstored := hs.stored_eq h receipt cursor
  have hpaid := hs.paid h receipt cursor
  have hbytes : receivedBytes (w.acceptedOf h ++ [receipt]) = receivedBytes (w.acceptedOf h) +
      receipt.size := by
    simp [receivedBytes]
  have hsizeN : receipt.size = receipt.content.utf8ByteSize := rfl
  constructor
  case consecutive =>
    rw [haccepted]
    exact consecutive_concat hc.consecutive (by rw [hm.starts, hc.offset, Int.zero_add]) hend
  case offset => rw [hcursor, haccepted, hoffset, hend, hm.starts, hc.offset, hbytes]
  case bounded =>
    rw [hcursor, hoffset]
    exact ⟨by rw [hend, hm.starts]; omega, hm.bound⟩
  case conserved =>
    rw [hcursor, hstored, hdropped, hoffset, hend, hm.starts, ← hc.conserved]
    omega
  case consumed =>
    intro b hb
    rw [hstored]
    obtain ⟨hsame, -, rfl⟩ | ⟨-, hnone, -⟩ | ⟨b₀, b', hbefore, hafter, hspent⟩ := hpaid
    · simpa using hc.consumed b (hsame ▸ hb)
    · rw [hnone] at hb
      cases hb
    · obtain rfl := Option.some.inj (hafter.symm.trans hb)
      rw [hc.consumed b₀ hbefore, hspent.consumed]
      push_cast
      rfl
  case within =>
    intro b hb
    obtain ⟨hsame, -⟩ | ⟨-, hnone, -⟩ | ⟨b₀, b', hbefore, hafter, hspent⟩ := hpaid
    · exact hc.within b (hsame ▸ hb)
    · rw [hnone] at hb
      cases hb
    · obtain rfl := Option.some.inj (hafter.symm.trans hb)
      exact ⟨hspent.maximum ▸ hspent.within, hspent.within.trans hspent.bound⟩
  case exhausted =>
    rw [hcursor, hexhausted, Bool.or_eq_true, decide_eq_true_eq]
    intro hex
    obtain ⟨hsame, hzero, rfl⟩ | ⟨hnone, -, rfl⟩ | ⟨b₀, b', hbefore, hafter, hspent⟩ := hpaid
    · rw [hsame]
      exact hc.exhausted (hex.resolve_right (by omega))
    · obtain ⟨b, hb, -⟩ := hc.exhausted (hex.resolve_right (by omega))
      rw [hnone] at hb
      cases hb
    · refine ⟨b', hafter, ?_⟩
      rcases hex with hold | hnew
      · obtain ⟨b, hb, hbe⟩ := hc.exhausted hold
        obtain rfl := Option.some.inj (hbefore.symm.trans hb)
        exact (hspent.exhausted hbe).2
      · exact hspent.dropped (by omega)

/-- Once the cursor says that the budget is exhausted, nothing is stored. -/
theorem Moved.stores_nothing (hm : Moved w w' h r receipt n) (hc : Conserved w h r)
    (hex : (w.cursors h).budgetExhausted = true) : n = 0 := by
  obtain ⟨db, cursor, -, hs, -⟩ := hm.stored
  obtain ⟨b, hb, hbe⟩ := hc.exhausted hex
  obtain ⟨-, -, hn⟩ | ⟨hnone, -⟩ | ⟨b₀, b', hbefore, -, hspent⟩ :=
    hs.paid h receipt cursor
  · exact hn
  · rw [hnone] at hb
    cases hb
  · obtain rfl := Option.some.inj (hbefore.symm.trans hb)
    exact (hspent.exhausted hbe).1

/-- Another holder. -/
theorem Conserved.unmoved (hc : Conserved w h' r') (hm : Moved w w' h r receipt n) (hne : h' ≠ h)
    (hnumbered : Numbered w.db)
    (hrow : ¬ (r'.attemptId = r.attemptId ∧ r'.componentId = r.componentId)) :
    Conserved w' h' r' := by
  obtain ⟨db, cursor, rfl, hs, -⟩ := hm.stored
  obtain ⟨hstored, hbudget⟩ := hs.other h receipt cursor hnumbered hrow
  have hcursor : (w.accept db h receipt cursor).cursors h' = w.cursors h' :=
    Function.update_of_ne hne _ _
  have haccepted : (w.accept db h receipt cursor).acceptedOf h' = w.acceptedOf h' := by
    rw [LogDb.acceptedOf_accept, if_neg (Ne.symm hne), List.append_nil]
  constructor
  case consecutive => rw [haccepted]; exact hc.consecutive
  case offset => rw [hcursor, haccepted]; exact hc.offset
  case bounded => rw [hcursor]; exact hc.bounded
  case conserved => rw [hcursor, hstored]; exact hc.conserved
  case consumed => rw [hbudget, hstored]; exact hc.consumed
  case within => rw [hbudget]; exact hc.within
  case exhausted => rw [hbudget, hcursor]; exact hc.exhausted

end

/-! ### Runs -/

/-- No two holders have the attempt and the component in common. The manager makes one allocation,
or one `external_execution`, for each component of an attempt. -/
def Apart (w : LogDb) : Prop :=
  ∀ h h' r r', w.row h = some r → w.row h' = some r' → r'.attemptId = r.attemptId →
    r'.componentId = r.componentId → h' = h

/-- The tables as the first logs find them. -/
structure Ready (w : LogDb) : Prop where
  apart : Apart w
  numbered : Numbered w.db
  cursor : ∀ h r, w.row h = some r → w.cursors h = {}
  accepted : ∀ h r, w.row h = some r → w.acceptedOf h = []
  stored : ∀ h r, w.row h = some r → w.stored r = 0
  consumed : ∀ h r b, w.row h = some r → w.budget r = some b → b.details.logConsumedBytes = 0

structure Streams (w : LogDb) : Prop where
  apart : Apart w
  numbered : Numbered w.db
  conserved : ∀ h r, w.row h = some r → Conserved w h r

theorem Ready.streams (hw : Ready w) : Streams w := by
  refine ⟨hw.apart, hw.numbered, fun h r hr => ?_⟩
  have hcursor := hw.cursor h r hr
  have haccepted := hw.accepted h r hr
  constructor
  case consecutive => rw [haccepted]; trivial
  case offset => rw [hcursor, haccepted]; rfl
  case bounded => rw [hcursor]; decide
  case conserved => rw [hcursor, hw.stored h r hr]; rfl
  case consumed => intro b hb; rw [hw.stored h r hr, hw.consumed h r b hr hb]; rfl
  case within => intro b hb; rw [hw.consumed h r b hr hb]; exact ⟨Nat.zero_le _, Nat.zero_le _⟩
  case exhausted => rw [hcursor]; intro hex; cases hex

theorem Moved.row_eq (hm : Moved w w' h r receipt n) (h' : Holder) : w'.row h' = w.row h' := by
  obtain ⟨db, cursor, rfl, hs, -⟩ := hm.stored
  exact hs.row_eq h'

theorem Streams.moved (hw : Streams w) (hm : Moved w w' h r receipt n) : Streams w' := by
  constructor
  case apart =>
    intro h₁ h₂ r₁ r₂ hr₁ hr₂
    rw [hm.row_eq] at hr₁ hr₂
    exact hw.apart h₁ h₂ r₁ r₂ hr₁ hr₂
  case numbered =>
    obtain ⟨db, cursor, rfl, hs, -⟩ := hm.stored
    exact hs.numbered hw.numbered
  case conserved =>
    intro h' r' hr'
    rw [hm.row_eq] at hr'
    by_cases heq : h' = h
    · subst heq
      obtain rfl := Option.some.inj (hm.row.symm.trans hr')
      exact (hw.conserved _ _ hm.row).moved hm
    · exact (hw.conserved _ _ hr').unmoved hm heq hw.numbered fun hsame =>
        heq (hw.apart h h' r r' hm.row hr' hsame.1 hsame.2)

/-- A poll asks to store only receipts that it has validated. -/
def Validated (nm : Naming) (p : Poll) : Prop :=
  p.Safe (fun op (_ : Unit) =>
    match op with
    | .ingest _ _ identity offset receipt => receipt.validate nm identity offset = .ok ()
    | _ => True) (fun _ _ u => u) (fun _ _ => True) ()

theorem pollLoop_validated (nm : Naming) (allocationId : Id) (terminal : Bool) (left : Nat)
    (exhausted : Bool) (result : LogIngestResult) :
    Validated nm (pollLoop nm allocationId terminal left exhausted result) := by
  induction left generalizing exhausted result with
  | zero => trivial
  | succ left ih =>
    refine ⟨trivial, fun found => ?_⟩
    match found with
    | .error _ | .ok .gone | .ok .expired | .ok (.complete _) => trivial
    | .ok (.ready projectId identity offset) =>
      refine ⟨trivial, fun answer => ?_⟩
      cases answer with
      | error e => trivial
      | ok receipt =>
        dsimp only
        split
        case h_1 => trivial
        case h_2 hvalid =>
          refine ⟨hvalid, fun done => ?_⟩
          match done with
          | .error e =>
            dsimp only
            split <;> trivial
          | .ok .expired | .ok .conflict => trivial
          | .ok (.stored stored exhausted) =>
            dsimp only
            split
            case isTrue => trivial
            case isFalse => exact ih exhausted _

theorem ingestComponentLogs_validated (nm : Naming) (reader : Bool) (allocationId : Id)
    (terminal : Bool) (maxChunks : Int) :
    Validated nm (ingestComponentLogs nm reader allocationId terminal maxChunks) := by
  unfold ingestComponentLogs
  split
  case isTrue => trivial
  case isFalse =>
    split
    case isTrue => trivial
    case isFalse => exact pollLoop_validated ..

/-- A transaction that writes leaves the tables as they were, or as it has written them. -/
theorem commit_world {α : Type} (w : LogDb) (x : Except Refusal (α × LogDb)) (c : Commit) :
    (commit w x c).2 = w ∨ ∃ a, x = .ok (a, (commit w x c).2) := by
  cases c <;> rcases x with e | ⟨a, w'⟩ <;> first | exact .inl rfl | exact .inr ⟨a, rfl⟩

/-- **What a step does to the tables**: nothing, or a holder accepts a receipt. -/
theorem logStep_world (nm : Naming) (s : LogService) (a : LogAction)
    (hs : ∀ p ∈ s.polls, Validated nm p.program) :
    (logStep nm s a).world = s.world ∨
      ∃ h r receipt n, Moved s.world (logStep nm s a).world h r receipt n := by
  cases a with
  | poll | kill => exact .inl rfl
  | deliver now identity receipt resourceId nodeId c =>
    rcases commit_world s.world
        (appendExternalLogs nm now s.world identity receipt resourceId nodeId) c with
      hsame | ⟨x, hx⟩
    · exact .inl hsame
    · rcases appendExternalLogs_ok hx with hsame | ⟨h, r, n, hm⟩
      · exact .inl hsame
      · exact .inr ⟨h, r, receipt, n, hm⟩
  | proceed pid now answer c =>
    unfold logStep
    dsimp only
    split
    case h_1 => exact .inl rfl
    case h_2 p hp =>
      split
      case h_1 => exact .inl rfl
      case h_2 op next hprogram =>
        have hpre := hs p (Table.get_mem hp).1
        rw [hprogram] at hpre
        cases op with
        | snapshot | readLogs => exact .inl rfl
        | ingest allocationId projectId identity offset receipt =>
          rcases commit_world s.world
              (ingest nm now s.world allocationId projectId identity offset receipt) c with
            hsame | ⟨x, hx⟩
          · exact .inl hsame
          · rcases ingest_ok hpre.1 hx with hsame | ⟨h, r, n, hm⟩
            · exact .inl hsame
            · exact .inr ⟨h, r, receipt, n, hm⟩

theorem logStep_validated (nm : Naming) (s : LogService) (a : LogAction)
    (hs : ∀ p ∈ s.polls, Validated nm p.program) :
    ∀ p ∈ (logStep nm s a).polls, Validated nm p.program := by
  intro p hp
  cases a with
  | poll reader allocationId terminal maxChunks =>
    rcases Table.mem_concat.mp hp with hold | rfl
    · exact hs p hold
    · exact ingestComponentLogs_validated ..
  | kill => exact hs p (List.mem_of_mem_filter hp)
  | deliver => exact hs p hp
  | proceed pid now answer c =>
    unfold logStep at hp
    dsimp only at hp
    split at hp
    case h_1 => exact hs p hp
    case h_2 q hq =>
      split at hp
      case h_1 => exact hs p (List.mem_of_mem_filter hp)
      case h_2 op next hprogram =>
        rcases Table.of_mem_put hp with hold | rfl
        · exact hs p hold.1
        · have hpre := hs q (Table.get_mem hq).1
          rw [hprogram] at hpre
          exact hpre.2 _

/-- A service in which every stream is conserved. -/
structure Serving (nm : Naming) (s : LogService) : Prop where
  streams : Streams s.world
  validated : ∀ p ∈ s.polls, Validated nm p.program

theorem Serving.step (hs : Serving nm s) (a : LogAction) : Serving nm (logStep nm s a) := by
  refine ⟨?_, logStep_validated nm s a hs.validated⟩
  rcases logStep_world nm s a hs.validated with hsame | ⟨h, r, receipt, n, hm⟩
  · exact hsame ▸ hs.streams
  · exact hs.streams.moved hm

theorem Serving.row_eq (hs : Serving nm s) (a : LogAction) (h : Holder) :
    (logStep nm s a).world.row h = s.world.row h := by
  rcases logStep_world nm s a hs.validated with hsame | ⟨h₀, r, receipt, n, hm⟩
  · rw [hsame]
  · exact hm.row_eq h

/-- A step of a service in which the budget of a holder is exhausted. -/
theorem Serving.exhausted_step (hs : Serving nm s) (a : LogAction)
    (hr : s.world.row h = some r) (hex : (s.world.cursors h).budgetExhausted = true) :
    ((logStep nm s a).world.cursors h).budgetExhausted = true ∧
      (logStep nm s a).world.stored r = s.world.stored r := by
  rcases logStep_world nm s a hs.validated with hsame | ⟨h₀, r₀, receipt, n, hm⟩
  · rw [hsame]
    exact ⟨hex, rfl⟩
  · obtain ⟨db, cursor, hw, hstored, -, -, hexhausted⟩ := hm.stored
    rw [hw]
    by_cases heq : h = h₀
    · subst heq
      obtain rfl := Option.some.inj (hm.row.symm.trans hr)
      have hzero := hm.stores_nothing (hs.streams.conserved h r₀ hr) hex
      constructor
      · show (Function.update s.world.cursors h cursor h).budgetExhausted = true
        rw [Function.update_self, hexhausted, hex]
        rfl
      · rw [hstored.stored_eq, hzero]
        exact Int.add_zero _
    · constructor
      · show (Function.update s.world.cursors h₀ cursor h).budgetExhausted = true
        rw [Function.update_of_ne heq]
        exact hex
      · exact (hstored.other h₀ receipt cursor hs.streams.numbered fun hsame =>
          heq (hs.streams.apart h₀ h r₀ r hm.row hr hsame.1 hsame.2)).1

/-- **The counts of every log stream agree in every run**, and a holder whose budget is exhausted
stores no byte in any continuation. -/
theorem log_stream_conserved (nm : Naming) (w : LogDb) (hw : Ready w) (run later : List LogAction)
    (h : Holder) (r : HolderRow) (hr : w.row h = some r) :
    Conserved (run.foldl (logStep nm) { world := w }).world h r ∧
      (((run.foldl (logStep nm) { world := w }).world.cursors h).budgetExhausted = true →
        (later.foldl (logStep nm) (run.foldl (logStep nm) { world := w })).world.stored r =
          (run.foldl (logStep nm) { world := w }).world.stored r) := by
  have hstart : Serving nm { world := w } ∧ w.row h = some r := ⟨⟨hw.streams, by simp⟩, hr⟩
  have hstep : ∀ s a, Serving nm s ∧ s.world.row h = some r →
      Serving nm (logStep nm s a) ∧ (logStep nm s a).world.row h = some r :=
    fun s a hs => ⟨hs.1.step a, (hs.1.row_eq a h).trans hs.2⟩
  have hrun := Run.invariant hstep hstart run
  generalize run.foldl (logStep nm) { world := w } = s at hrun
  refine ⟨hrun.1.streams.conserved h r hrun.2, fun hex => ?_⟩
  -- What is kept from here on: the budget stays exhausted, and the bytes stay as they are.
  have hlater := Run.invariant
    (P := fun t => (Serving nm t ∧ t.world.row h = some r) ∧
      (t.world.cursors h).budgetExhausted = true ∧ t.world.stored r = s.world.stored r)
    (fun t a ht => by
      obtain ⟨hex', hstored⟩ := ht.1.1.exhausted_step a ht.1.2 ht.2.1
      exact ⟨hstep t a ht.1, hex', hstored.trans ht.2.2⟩)
    ⟨hrun, hex, rfl⟩ later
  exact hlater.2.2

def fourBytes : ResourceDetails :=
  { componentId := some "c"
    attemptNumber := some 1
    retentionChargedBytes := some 4
    retentionReservationBytes := some 4 }

/-- One component with a log budget of four bytes. -/
def smallBudget : LogDb :=
  { db :=
      { projects := [{ id := "p", retainedBytes := 4 }]
        jobs := oneJob.jobs
        attempts := [{ id := 1, jobId := 1, number := 1, epoch := 1, state := .running }]
        allocations := [⟨1, 1, 1, "c", "pool", 0, 0, 0, 0, 1, .reserved, false,
          { nodeId := "n", logResourceId := some (.other 1) }, none⟩]
        resources := [⟨.other 1, 1, some 1, "c", "log_budget", some (logExternal 1 1 "c"),
          logOwnership 1 "c", fourBytes, .ready, true, 4, none⟩] } }

/-- The component has written five bytes. -/
def fiveBytes : LogReceipt := ⟨⟨1, 1, "c", 1⟩, "c", 0, 5, "hello", false, false⟩

/-- Two polls read the same receipt, and the first to store it wins. -/
def racingPolls : List LogAction :=
  [.poll true 1 false 1, .poll true 1 false 1] ++
    ([0, 1, 0, 1, 0, 1].map fun pid => .proceed pid 0 (.ok fiveBytes) .reported)

theorem smallBudget_ready : Ready smallBudget := by
  have hrow : ∀ h r, smallBudget.row h = some r → h = .allocation 1 ∧
      r = ⟨1, 1, "c", some (.other 1)⟩ := by
    intro h r hr
    cases h with
    | allocation id =>
      by_cases hid : 1 = id
      · subst hid
        exact ⟨rfl, (Option.some.inj hr).symm⟩
      · simp [LogDb.row, smallBudget, Table.get, hid] at hr
    | execution id =>
      by_cases hid : ResourceId.other 1 = id <;> simp [LogDb.row, smallBudget, Table.get, hid] at hr
  constructor
  case apart => exact fun h h' r r' hr hr' _ _ => (hrow h' r' hr').1.trans (hrow h r hr).1.symm
  case numbered => exact List.nodup_singleton _
  case cursor => exact fun _ _ _ => rfl
  case accepted => exact fun _ _ _ => rfl
  case stored => exact fun _ _ _ => rfl
  case consumed =>
    intro h r b hr hb
    rw [(hrow h r hr).2] at hb
    have hzero : (smallBudget.budget ⟨1, 1, "c", some (.other 1)⟩).map
        (·.details.logConsumedBytes) = some 0 := by
      decide +kernel
    rw [hb] at hzero
    exact Option.some.inj hzero

theorem log_stream_conserved_racingPolls :
    ((racingPolls.foldl (logStep plainNaming) { world := smallBudget }).world.cursors
      (.allocation 1)).droppedBytes = 1 ∧
    Conserved (racingPolls.foldl (logStep plainNaming) { world := smallBudget }).world
      (.allocation 1)
      ⟨1, 1, "c", some (.other 1)⟩ :=
  ⟨by decide +kernel,
    (log_stream_conserved plainNaming smallBudget smallBudget_ready racingPolls [] (.allocation 1)
    ⟨1, 1, "c", some (.other 1)⟩ rfl).1⟩

end Hf2l.Jobs.Artifacts
