import Hf2l.Exchange.Ledger.Sound

/-!
# `Hf2l.Exchange.Ledger.Accounts`: the byte accounts of a space

The space row has four counters that the transactions move by hand. `Accounted` says what
they count, with the relation between records and attachments that makes this inductive: an
attachment of a live record is neither charged for deletion nor cleaned, and one of a stopped
record is charged until it is cleaned.

Each counter is the total of a column (`Record.allocated`, `Blob.owed`), so a write of one
row moves it by a difference (`Table.total_put`). Two lemmas, `Accounted.writeRecord` and
`Accounted.writeBlob`, carry all the changes that write rows one at a time.
-/

set_option autoImplicit false

namespace Hf2l.Exchange

open Lib

/-- The bytes a record is allocated. -/
def Record.allocated (r : Record) : Int := if r.state.terminal then 0 else r.declaredBytes

/-- The bytes an attachment is charged for deletion. -/
def Blob.owed (b : Blob) : Int := if b.pendingDeletion then b.size else 0

/-- The bytes an attachment may occupy. -/
def Blob.occupied (b : Blob) : Int := if b.state = .cleaned then 0 else b.size

/-- How the state of a record and its attachment agree. -/
structure Charged (state : RecordState) (b : Blob) : Prop where
  live : state.terminal = false → b.pendingDeletion = false ∧ b.state ≠ .cleaned
  stopped : state.terminal = true → (b.pendingDeletion = true ↔ b.state ≠ .cleaned)

/-- A rule that charges what is not cleaned, and takes an attempt for settled by its state and
its markers. -/
structure ReleaseRule.Lawful (rule : ReleaseRule) : Prop where
  done_live : ∀ b : Blob, b.pendingDeletion = false → b.state ≠ .cleaned → rule.done b = false
  label_ne : ∀ s : TransferState, s ≠ .cleaned → rule.label s ≠ .cleaned
  settled_state : ∀ a : TransferAttempt, rule.settled a = true → a.state = .cleaned
  settled_of_clear : ∀ a : TransferAttempt, a.state = .cleaned → a.mutationTokens = [] →
    rule.settled a = true
  settled_congr : ∀ a a' : TransferAttempt, a'.state = a.state →
    a'.mutationTokens = a.mutationTokens → rule.settled a' = rule.settled a
  absent_settled : ∀ attempts : List TransferAttempt, rule.absent attempts = true →
    ∀ a ∈ attempts, rule.settled a = true

theorem ReleaseRule.python_lawful : ReleaseRule.python.Lawful where
  done_live b hp hs := by simp [ReleaseRule.python, hp, hs]
  label_ne _ hs := hs
  settled_state a h := by simpa [ReleaseRule.python] using h
  settled_of_clear a hs _ := by simp [ReleaseRule.python, hs]
  settled_congr a a' hs _ := by simp [ReleaseRule.python, hs]
  absent_settled attempts h a ha := by
    rw [List.isEmpty_iff.mp h] at ha
    simp at ha

theorem ReleaseRule.go_lawful : ReleaseRule.go.Lawful where
  done_live _ hp _ := hp
  label_ne s hs := by simp [ReleaseRule.go, hs]
  settled_state a h := by
    simp only [ReleaseRule.go, Bool.and_eq_true, decide_eq_true_eq] at h
    exact h.1
  settled_of_clear a hs ht := by simp [ReleaseRule.go, hs, ht]
  settled_congr a a' hs ht := by simp [ReleaseRule.go, hs, ht]
  absent_settled attempts h a ha := List.all_eq_true.mp h a ha

namespace Ledger

/-- The counters of the space row are the totals of the tables. -/
structure Accounted (l : Ledger) : Prop extends l.Sound where
  declared : ∀ r ∈ l.records, (r.declaredBytes : Int) = Table.total (fun b => (b.size : Int))
    (l.blobsOf r.id)
  charged : ∀ b ∈ l.blobs, ∀ r ∈ l.records, r.id = b.recordId → Charged r.state b
  allocated : l.space.allocated = Table.total Record.allocated l.records
  reclaiming : l.space.reclaiming = Table.total Blob.owed l.blobs
  recordCount : l.space.recordCount = l.records.length
  metadataBytes : l.space.metadataBytes = Table.total (fun r => (r.metadataBytes : Int)) l.records

namespace Accounted

variable {l : Ledger}

/-! ### Changes of the space row and of attempts -/

theorem respace (h : Accounted l) {s : Space} (ha : s.allocated = l.space.allocated)
    (hr : s.reclaiming = l.space.reclaiming) (hc : s.recordCount = l.space.recordCount)
    (hm : s.metadataBytes = l.space.metadataBytes) : Accounted { l with space := s } where
  toSound := h.toSound.respace s
  declared := h.declared
  charged := h.charged
  allocated := ha.trans h.allocated
  reclaiming := hr.trans h.reclaiming
  recordCount := hc.trans h.recordCount
  metadataBytes := hm.trans h.metadataBytes

/-- The accounts do not read the attempts. -/
theorem of_attempts (h : Accounted l) {l' : Ledger} (hs : l'.Sound) (hspace : l'.space = l.space)
    (hrecords : l'.records = l.records) (hblobs : l'.blobs = l.blobs) : Accounted l' where
  toSound := hs
  declared := by
    unfold blobsOf
    rw [hrecords, hblobs]
    exact h.declared
  charged := by
    rw [hrecords, hblobs]
    exact h.charged
  allocated := by rw [hspace, hrecords, h.allocated]
  reclaiming := by rw [hspace, hblobs, h.reclaiming]
  recordCount := by rw [hspace, hrecords, h.recordCount]
  metadataBytes := by rw [hspace, hrecords, h.metadataBytes]

/-! ### Writes of one row -/

/-- The sizes that a record's attachments declare are not changed by a write. -/
theorem total_size_putBlob (h : l.Sound) {b b' : Blob} (hb : b ∈ l.blobs) (hid : b'.id = b.id)
    (hrec : b'.recordId = b.recordId) (hsize : b'.size = b.size) (recordId : Id) :
    Table.total (fun b => (b.size : Int)) ((l.putBlob b').blobsOf recordId) =
      Table.total (fun b => (b.size : Int)) (l.blobsOf recordId) := by
  simp only [blobsOf, putBlob, Table.total_filter]
  rw [Table.total_put _ h.blobs hb hid]
  simp only [hrec, hsize]
  omega

/-- An attachment written in agreement with its record, and the counter moved by what it is
charged now and was not before. -/
theorem writeBlob (h : Accounted l) {b b' : Blob} (hb : b ∈ l.blobs) (hid : b'.id = b.id)
    (hrec : b'.recordId = b.recordId) (hsize : b'.size = b.size)
    (hc : ∀ r ∈ l.records, r.id = b.recordId → Charged r.state b') :
    Accounted ((l.putBlob b').addReclaiming (b'.owed - b.owed)) where
  toSound := (h.toSound.putBlob hb hid hrec).respace _
  declared r hr :=
    (h.declared r hr).trans (total_size_putBlob h.toSound hb hid hrec hsize r.id).symm
  charged := by
    intro x hx r hr he
    rcases Table.of_mem_put hx with ⟨hx, -⟩ | rfl
    · exact h.charged x hx r hr he
    · exact hc r hr (he.trans hrec)
  allocated := h.allocated
  reclaiming := by
    show l.space.reclaiming + (b'.owed - b.owed) = Table.total Blob.owed
      (Table.put Blob.id b' l.blobs)
    rw [Table.total_put _ h.blobs hb hid, h.reclaiming]
    omega
  recordCount := h.recordCount
  metadataBytes := h.metadataBytes

/-- An attachment written without a change of its charge. -/
theorem putBlob (h : Accounted l) {b b' : Blob} (hb : b ∈ l.blobs) (hid : b'.id = b.id)
    (hrec : b'.recordId = b.recordId) (hsize : b'.size = b.size) (howed : b'.owed = b.owed)
    (hc : ∀ r ∈ l.records, r.id = b.recordId → Charged r.state b') : Accounted (l.putBlob b') := by
  have h' := h.writeBlob hb hid hrec hsize hc
  rwa [howed, Int.sub_self, addReclaiming_zero] at h'

variable {r : Record} {bs : List Blob}

/-- A record written in the same half of its life, and the counter moved by the difference of
its metadata. -/
theorem writeRecord (h : Accounted l) {r' : Record} (hr : r ∈ l.records) (hid : r'.id = r.id)
    (hbytes : r'.declaredBytes = r.declaredBytes) (hstate : r'.state.terminal = r.state.terminal) :
    Accounted ((l.putRecord r').addMetadataBytes (r'.metadataBytes - r.metadataBytes)) where
  toSound := (h.toSound.putRecord r').respace _
  declared := by
    intro x hx
    rcases Table.of_mem_put hx with ⟨hx, -⟩ | rfl
    · exact h.declared x hx
    · rw [hbytes, hid]
      exact h.declared r hr
  charged := by
    intro b hb x hx he
    rcases Table.of_mem_put hx with ⟨hx, -⟩ | rfl
    · exact h.charged b hb x hx he
    · have hcr := h.charged b hb r hr (hid.symm.trans he)
      exact ⟨fun ht => hcr.live (hstate ▸ ht), fun ht => hcr.stopped (hstate ▸ ht)⟩
  allocated := by
    show l.space.allocated = Table.total Record.allocated (Table.put Record.id r' l.records)
    have hsame : r'.allocated = r.allocated := by
      unfold Record.allocated
      rw [hstate, hbytes]
    rw [Table.total_put _ h.records hr hid, hsame, h.allocated]
    omega
  reclaiming := h.reclaiming
  recordCount := by
    show l.space.recordCount = ((Table.put Record.id r' l.records).length : Int)
    rw [Table.length_put, h.recordCount]
  metadataBytes := by
    show l.space.metadataBytes + (r'.metadataBytes - r.metadataBytes) =
      Table.total (fun r => (r.metadataBytes : Int)) (Table.put Record.id r' l.records)
    rw [Table.total_put _ h.records hr hid, h.metadataBytes]
    omega

theorem share (h : Accounted l) (kind : String) (flag : Bool) : Accounted (l.share kind flag) where
  toSound := by
    refine h.toSound.mapRecords fun r _ => ?_
    split_ifs <;> rfl
  declared := by
    intro r' hr'
    obtain ⟨r, hr, rfl⟩ := List.mem_map.mp hr'
    have := h.declared r hr
    split_ifs <;> exact this
  charged := by
    intro b hb r' hr' he
    obtain ⟨r, hr, rfl⟩ := List.mem_map.mp hr'
    have hcr : r.id = b.recordId → Charged r.state b := h.charged b hb r hr
    split_ifs at he ⊢ <;> exact hcr he
  allocated := by
    refine h.allocated.trans ?_
    unfold Ledger.share
    rw [Table.total_map]
    refine Table.total_congr fun r _ => ?_
    split_ifs <;> rfl
  reclaiming := h.reclaiming
  recordCount := by
    refine h.recordCount.trans ?_
    simp [Ledger.share]
  metadataBytes := by
    refine h.metadataBytes.trans ?_
    unfold Ledger.share
    rw [Table.total_map]
    refine Table.total_congr fun r _ => ?_
    split_ifs <;> rfl

/-! ### Opening, stopping and purging a record -/

/-- The attachments of a record that has just been opened. -/
theorem blobsOf_insert_new (h : l.Sound) (ho : Opened l r bs) :
    (l.insertRecord r bs).blobsOf r.id = bs := by
  have hold : l.blobs.filter (fun b => decide (b.recordId = r.id)) = [] := by
    refine List.filter_eq_nil_iff.mpr fun b hb => ?_
    obtain ⟨x, hx, he⟩ := h.owner b hb
    have hne : b.recordId ≠ r.id := he ▸ ho.id ▸ (h.mintedRecords x hx).ne_fresh 0
    simpa using hne
  have hnew : bs.filter (fun b => decide (b.recordId = r.id)) = bs :=
    List.filter_eq_self.mpr fun b hb => by simpa using ho.owner b hb
  unfold blobsOf Ledger.insertRecord
  rw [List.filter_append, hold, hnew, List.nil_append]

theorem blobsOf_insert_old (h : l.Sound) {x : Record} (ho : Opened l r bs)
    (hx : x ∈ l.records) : (l.insertRecord r bs).blobsOf x.id = l.blobsOf x.id := by
  have hnew : bs.filter (fun b => decide (b.recordId = x.id)) = [] := by
    refine List.filter_eq_nil_iff.mpr fun b hb => ?_
    have hne : x.id ≠ b.recordId := by
      rw [ho.owner b hb, ho.id]
      exact (h.mintedRecords x hx).ne_fresh 0
    simpa using hne.symm
  unfold blobsOf Ledger.insertRecord
  rw [List.filter_append, hnew, List.append_nil]

theorem insertRecord (h : Accounted l) (ho : Opened l r bs) :
    Accounted ((l.insertRecord r bs).draw (1 + bs.length)) where
  toSound := h.toSound.insertRecord ho
  declared := by
    intro x hx
    rcases Table.mem_concat.mp hx with hx | rfl
    · exact (h.declared x hx).trans (congrArg _ (blobsOf_insert_old h.toSound ho hx).symm)
    · exact ho.declared.trans (congrArg _ (blobsOf_insert_new h.toSound ho).symm)
  charged := by
    intro b hb x hx he
    rcases List.mem_append.mp hb with hb | hb
    · rcases List.mem_append.mp hx with hx | hx
      · exact h.charged b hb x hx he
      · -- An attachment from before cannot belong to the new record.
        obtain ⟨y, hy, hye⟩ := h.owner b hb
        rw [List.mem_singleton.mp hx, ho.id] at he
        exact absurd (hye.trans he.symm) ((h.mintedRecords y hy).ne_fresh 0)
    · have hid : x.id = r.id := he.trans (ho.owner b hb)
      have hxr : x.state = .draft := by
        rcases Table.mem_concat.mp hx with hx | rfl
        · exact absurd (hid.trans ho.id) ((h.mintedRecords x hx).ne_fresh 0)
        · exact ho.draft
      obtain ⟨hs, hp, -⟩ := ho.reserved b hb
      rw [hxr]
      exact ⟨fun _ => ⟨hp, by simp [hs]⟩, fun ht => by simp [RecordState.terminal] at ht⟩
  allocated := by
    have hr : r.allocated = r.declaredBytes := by simp [Record.allocated, ho.draft,
      RecordState.terminal]
    show l.space.allocated + r.declaredBytes = Table.total Record.allocated (l.records ++ [r])
    rw [Table.total_append, Table.total_cons, Table.total_nil, hr, h.allocated]
    omega
  reclaiming := by
    have hzero : Table.total Blob.owed bs = 0 :=
      Table.total_eq_zero fun b hb => by simp [Blob.owed, (ho.reserved b hb).2.1]
    show l.space.reclaiming = Table.total Blob.owed (l.blobs ++ bs)
    rw [Table.total_append, hzero, h.reclaiming]
    omega
  recordCount := by
    show l.space.recordCount + 1 = ((l.records ++ [r]).length : Int)
    rw [h.recordCount, List.length_append, List.length_singleton]
    push_cast
    rfl
  metadataBytes := by
    show l.space.metadataBytes + r.metadataBytes =
      Table.total (fun r => (r.metadataBytes : Int)) (l.records ++ [r])
    rw [Table.total_append, Table.total_cons, Table.total_nil, h.metadataBytes]
    omega

theorem removeRecord (h : Accounted l) (hr : r ∈ l.records)
    (ht : r.state.terminal = true) (hclean : ∀ b ∈ l.blobsOf r.id, b.state = .cleaned) :
    Accounted (l.removeRecord r) where
  toSound := h.toSound.removeRecord r
  declared := by
    intro x hx
    obtain ⟨hx, hne⟩ := List.mem_filter.mp hx
    refine (h.declared x hx).trans (congrArg _ ?_)
    -- The attachments of another record are all kept.
    show l.blobs.filter _ = (l.blobs.filter _).filter _
    rw [List.filter_filter]
    refine List.filter_congr fun b _ => ?_
    by_cases hb : b.recordId = x.id
    · simpa [hb] using hne
    · simp [hb]
  charged b hb x hx he :=
    h.charged b (List.mem_filter.mp hb).1 x (List.mem_filter.mp hx).1 he
  allocated := by
    have hzero : r.allocated = 0 := by simp [Record.allocated, ht]
    show l.space.allocated = Table.total Record.allocated
      (l.records.filter fun x => decide (x.id ≠ r.id))
    rw [Table.total_erase _ h.records hr, hzero, h.allocated]
    omega
  reclaiming := by
    have hzero : Table.total Blob.owed (l.blobsOf r.id) = 0 := by
      refine Table.total_eq_zero fun b hb => ?_
      obtain ⟨hbl, hbr⟩ := List.mem_filter.mp hb
      have hst := (h.charged b hbl r hr (of_decide_eq_true hbr).symm).stopped ht
      have hp : b.pendingDeletion = false := by
        by_contra hp
        exact hst.mp (by simpa using hp) (hclean b hb)
      simp [Blob.owed, hp]
    have hsplit := Table.total_split Blob.owed (fun b => decide (b.recordId = r.id)) l.blobs
    show l.space.reclaiming = Table.total Blob.owed
      (l.blobs.filter fun b => decide (b.recordId ≠ r.id))
    rw [h.reclaiming, hsplit]
    unfold blobsOf at hzero
    simp only [hzero, decide_not, Int.zero_add]
  recordCount := by
    have hone := Table.total_erase (fun _ => 1) h.records hr
    rw [Table.total_const_one, Table.total_const_one] at hone
    show l.space.recordCount - 1 = _
    rw [h.recordCount]
    exact hone.symm
  metadataBytes := by
    show l.space.metadataBytes - r.metadataBytes = _
    rw [h.metadataBytes]
    exact (Table.total_erase _ h.records hr).symm

theorem release (h : Accounted l) {rule : ReleaseRule} (hrule : rule.Lawful)
    (hr : r ∈ l.records) (hlive : r.state.terminal = false) {state : RecordState}
    (hstate : state.terminal = true) (now : Time) : Accounted (rule.release l r state now) := by
  -- An attachment of the record before and after its pass.
  have hpass : ∀ b ∈ l.blobsOf r.id,
      Charged state (rule.released now (l.attemptsOf b.id) b) ∧
      (rule.released now (l.attemptsOf b.id) b).owed = b.owed +
        rule.charge (l.attemptsOf b.id) b := by
    intro b hb
    obtain ⟨hbl, hbr⟩ := List.mem_filter.mp hb
    obtain ⟨hp, hs⟩ := (h.charged b hbl r hr (of_decide_eq_true hbr).symm).live hlive
    have hdone := hrule.done_live b hp hs
    unfold ReleaseRule.released ReleaseRule.charge ReleaseRule.charges
    by_cases habs : rule.absent (l.attemptsOf b.id) = true
    · simp only [hdone, habs, if_true, Bool.not_true, Bool.and_false, Bool.false_eq_true, if_false]
      exact ⟨⟨fun ht => by simp [hstate] at ht, fun _ => by simp [hp]⟩, by simp [Blob.owed, hp]⟩
    · simp only [hdone, habs, if_false, Bool.not_false, Bool.and_true, if_true, Bool.false_eq_true]
      have hl := hrule.label_ne b.state hs
      exact ⟨⟨fun ht => by simp [hstate] at ht, fun _ => by simp [hl]⟩, by simp [Blob.owed, hp]⟩
  have hblobs : (rule.release l r state now).blobs = _ :=
    ReleaseRule.release_blobs state now h.blobs
  have hspace : (rule.release l r state now).space = _ :=
    ReleaseRule.release_space state now h.blobs
  have hrecords : (rule.release l r state now).records = _ := ReleaseRule.release_records state now
  have hkeep : ∀ b ∈ l.blobs, b.recordId ≠ r.id → rule.releasedBlob l r now b = b :=
    fun b _ hne => if_neg hne
  have hmine : ∀ b ∈ l.blobs, b.recordId = r.id →
      rule.releasedBlob l r now b = rule.released now (l.attemptsOf b.id) b :=
        fun b _ he => if_pos he
  have hsame : ∀ b, (rule.releasedBlob l r now b).recordId = b.recordId ∧
      (rule.releasedBlob l r now b).size = b.size := by
    intro b
    unfold ReleaseRule.releasedBlob
    split_ifs <;> simp
  have hmem : ∀ b : Blob, b ∈ l.blobs → b.recordId = r.id → b ∈ l.blobsOf r.id := fun b hb he =>
    List.mem_filter.mpr ⟨hb, by simpa using he⟩
  exact
    { toSound := h.toSound.release rule r state now
      declared := by
        have hsizes : ∀ id : Id,
            Table.total (fun b => (b.size : Int)) ((rule.release l r state now).blobsOf id) =
            Table.total (fun b => (b.size : Int)) (l.blobsOf id) := by
          intro id
          unfold blobsOf
          rw [hblobs, Table.total_filter, Table.total_map, Table.total_filter]
          exact Table.total_congr fun b _ => by simp only [(hsame b).1, (hsame b).2]
        intro x hx
        rw [hsizes]
        rw [hrecords] at hx
        rcases Table.of_mem_put hx with ⟨hx, -⟩ | rfl
        · exact h.declared x hx
        · exact h.declared r hr
      charged := by
        intro b' hb' x hx he
        rw [hblobs] at hb'
        rw [hrecords] at hx
        obtain ⟨b, hb, rfl⟩ := List.mem_map.mp hb'
        rw [(hsame b).1] at he
        rcases Table.of_mem_put hx with ⟨hx, hne⟩ | rfl
        · rw [hkeep b hb fun e => hne (he.trans e)]
          exact h.charged b hb x hx he
        · rw [hmine b hb he.symm]
          exact (hpass b (hmem b hb he.symm)).1
      allocated := by
        have hbefore : r.allocated = r.declaredBytes := by simp [Record.allocated, hlive]
        have hafter : (r.stopped state).allocated =
            0 := by simp [Record.allocated, Record.stopped, hstate]
        rw [hspace, hrecords,
          Table.total_put _ h.records hr (show (r.stopped state).id = r.id from rfl),
          hbefore, hafter, ← h.allocated]
        simp only [Space.moved]
        omega
      reclaiming := by
        have hcharge : ∀ b ∈ l.blobs, (rule.releasedBlob l r now b).owed =
            b.owed + (if decide (b.recordId = r.id) = true then rule.charge
              (l.attemptsOf b.id) b else 0) := by
          intro b hb
          by_cases he : b.recordId = r.id
          · rw [hmine b hb he, (hpass b (hmem b hb he)).2]
            simp [he]
          · rw [hkeep b hb he]
            simp [he]
        rw [hspace, hblobs, Table.total_map, Table.total_congr hcharge, Table.total_add,
          ← Table.total_filter, ← h.reclaiming]
        rfl
      recordCount := by
        rw [hspace, hrecords, Table.length_put]
        exact h.recordCount
      metadataBytes := by
        rw [hspace, hrecords,
          Table.total_put _ h.records hr (show (r.stopped state).id = r.id from rfl),
          ← h.metadataBytes]
        simp only [Space.moved, Record.stopped]
        omega }

/-! ### What may be occupied -/

/-- **The two byte counters together count the attachments that are not cleaned.** -/
theorem occupied (h : Accounted l) :
    l.space.allocated + l.space.reclaiming = Table.total Blob.occupied l.blobs := by
  have hgroup : ∀ f : Blob → Int, Table.total f l.blobs =
      Table.total (fun r => Table.total f (l.blobsOf r.id)) l.records :=
    fun f => Table.total_group h.records h.owner f
  rw [h.allocated, h.reclaiming, hgroup Blob.owed, hgroup Blob.occupied, ← Table.total_add]
  refine Table.total_congr fun r hr => ?_
  have hcharged : ∀ b ∈ l.blobsOf r.id, Charged r.state b := fun b hb =>
    h.charged b (List.mem_filter.mp hb).1 r hr (of_decide_eq_true (List.mem_filter.mp hb).2).symm
  by_cases ht : r.state.terminal = true
  · -- A stopped record: an attachment is charged iff it is not cleaned.
    have hzero : r.allocated = 0 := by simp [Record.allocated, ht]
    rw [hzero, Int.zero_add]
    refine Table.total_congr fun b hb => ?_
    have hiff := (hcharged b hb).stopped ht
    unfold Blob.owed Blob.occupied
    by_cases hs : b.state = .cleaned
    · have hp : ¬ b.pendingDeletion = true := fun hp => hiff.mp hp hs
      rw [if_pos hs, if_neg hp]
    · rw [if_neg hs, if_pos (hiff.mpr hs)]
  · -- A live record: nothing is charged and nothing is cleaned.
    have hlive : r.state.terminal = false := by simpa using ht
    have hzero : Table.total Blob.owed (l.blobsOf r.id) = 0 :=
      Table.total_eq_zero fun b hb => by simp [Blob.owed, ((hcharged b hb).live hlive).1]
    have hdecl : r.allocated = Table.total (fun b => (b.size : Int)) (l.blobsOf r.id) := by
      rw [← h.declared r hr]
      simp [Record.allocated, hlive]
    rw [hzero, Int.add_zero, hdecl]
    exact Table.total_congr fun b hb => by simp [Blob.occupied, ((hcharged b hb).live hlive).2]

end Accounted

/-- The counters of the space row, in terms of the rows they count. -/
structure Balanced (l : Ledger) : Prop where
  allocated : l.space.allocated = Table.total (fun r => (r.declaredBytes : Int))
    (l.records.filter fun r => r.state = .draft ∨ r.state = .published)
  reclaiming : l.space.reclaiming = Table.total (fun b => (b.size : Int))
    (l.blobs.filter fun b => b.pendingDeletion = true)
  recordCount : l.space.recordCount = l.records.length
  metadataBytes : l.space.metadataBytes = Table.total (fun r => (r.metadataBytes : Int)) l.records
  occupied : l.space.allocated + l.space.reclaiming = Table.total (fun b => (b.size : Int))
    (l.blobs.filter fun b => b.state ≠ .cleaned)
  nonneg : 0 ≤ l.space.allocated ∧ 0 ≤ l.space.reclaiming ∧ 0 ≤ l.space.recordCount ∧
    0 ≤ l.space.metadataBytes

theorem Accounted.balanced {l : Ledger} (h : Accounted l) : Balanced l where
  allocated := by
    rw [h.allocated, Table.total_filter]
    refine Table.total_congr fun r _ => ?_
    unfold Record.allocated
    cases r.state <;> rfl
  reclaiming := by
    rw [h.reclaiming, Table.total_filter]
    refine Table.total_congr fun b _ => ?_
    unfold Blob.owed
    cases b.pendingDeletion <;> rfl
  recordCount := h.recordCount
  metadataBytes := h.metadataBytes
  occupied := by
    rw [h.occupied, Table.total_filter]
    refine Table.total_congr fun b _ => ?_
    unfold Blob.occupied
    by_cases hs : b.state = .cleaned <;> simp [hs]
  nonneg := by
    refine ⟨?_, ?_, ?_, ?_⟩
    · rw [h.allocated]
      refine Table.total_nonneg fun r _ => ?_
      unfold Record.allocated
      split_ifs <;> omega
    · rw [h.reclaiming]
      refine Table.total_nonneg fun b _ => ?_
      unfold Blob.owed
      split_ifs <;> omega
    · rw [h.recordCount]
      omega
    · rw [h.metadataBytes]
      exact Table.total_nonneg fun r _ => by omega

end Ledger

/-! ### Changes keep the accounts -/

variable {b : Blob} {l : Ledger} {w : Allowance}

/-- In a draft an attachment agrees with its record under any label but `cleaned`. -/
theorem Ledger.Accounted.charged_inDraft (h : l.Accounted) {b' : Blob} (hb : b ∈ l.blobs)
    (hd : l.InDraft b) (hp : b'.pendingDeletion = b.pendingDeletion) (hs : b'.state ≠ .cleaned) :
    ∀ r ∈ l.records, r.id = b.recordId → Charged r.state b' := by
  intro r hr he
  obtain ⟨d, hdr, hde, hds⟩ := hd
  have hrd : r = d := h.records.eq_of_key_eq hr hdr (he.trans hde.symm)
  have hlive : r.state.terminal = false := by rw [hrd, hds]; rfl
  refine ⟨fun _ => ⟨?_, hs⟩, fun ht => by simp [hlive] at ht⟩
  rw [hp]
  exact ((h.charged b hb r hr he).live hlive).1

theorem BlobMove.charged {b' : Blob} (h : BlobMove w l b b') (ha : l.Accounted) (hb : b ∈ l.blobs) :
    b'.owed = b.owed ∧ ∀ r ∈ l.records, r.id = b.recordId → Charged r.state b' := by
  cases h with
  | expose t =>
    exact ⟨rfl, fun r hr he => ⟨(ha.charged b hb r hr he).live, (ha.charged b hb r hr he).stopped⟩⟩
  | relabel s hd hs => exact ⟨rfl, ha.charged_inDraft hb hd rfl hs⟩
  | verify a version size sha256 hd _ _ _ => exact ⟨rfl, ha.charged_inDraft hb hd rfl (by simp)⟩

theorem RecordMove.terminal_eq {r r' : Record} (h : RecordMove w l r r') :
    r'.state.terminal = r.state.terminal := by
  cases h with
  | amend metadata size base generation hd _ _ _ => rfl
  | publish publishedAt shared generation hd _ => rw [hd]; rfl
  | extend t hd => rfl

/-- Charging an attachment of a stopped record again. -/
theorem Ledger.Accounted.recharge (h : l.Accounted) {r : Record} (hr : r ∈ l.records)
    (hrb : r.id = b.recordId) (hb : b ∈ l.blobs) (ht : r.state.terminal = true)
    (hp : b.pendingDeletion = false) :
    ((l.putBlob b.recharged).addReclaiming b.size).Accounted := by
  have hc : ∀ x ∈ l.records, x.id = b.recordId → Charged x.state b.recharged := by
    intro x hx he
    rw [h.records.eq_of_key_eq hx hr (he.trans hrb.symm)]
    exact ⟨fun hl => by simp [ht] at hl, fun _ => by simp [Blob.recharged]⟩
  have h' := h.writeBlob hb (show b.recharged.id = b.id from rfl) rfl rfl hc
  have howed : b.recharged.owed - b.owed = b.size := by simp [Blob.owed, Blob.recharged, hp]
  rwa [howed] at h'

/-- Ending the charge of an attachment that waits for deletion. -/
theorem Ledger.Accounted.discharge (h : l.Accounted) (hb : b ∈ l.blobs)
    (hp : b.pendingDeletion = true) :
    ((l.putBlob b.discharged).addReclaiming (-b.size)).Accounted := by
  have hc : ∀ x ∈ l.records, x.id = b.recordId → Charged x.state b.discharged := by
    intro x hx he
    refine ⟨fun hl => ?_, fun _ => by simp [Blob.discharged]⟩
    have := ((h.charged b hb x hx he).live hl).1
    simp [hp] at this
  have h' := h.writeBlob hb (show b.discharged.id = b.id from rfl) rfl rfl hc
  have howed : b.discharged.owed - b.owed = -b.size := by simp [Blob.owed, Blob.discharged, hp]
  rwa [howed] at h'

/-- A label other than `cleaned` on an attachment of a draft. -/
theorem Ledger.Accounted.relabel (h : l.Accounted) (hb : b ∈ l.blobs)
    (hd : l.InDraft b) {s : TransferState} (hs : s ≠ .cleaned) :
    (l.putBlob { b with state := s }).Accounted :=
  h.putBlob hb rfl rfl rfl rfl (h.charged_inDraft hb hd rfl hs)

theorem Change.accounted {l' : Ledger} (h : l.Accounted) (hc : Change w l l') : l'.Accounted := by
  have hsound := hc.sound h.toSound
  cases hc with
  | mint n | attempt a a' n ha hm | touch f hf | forget keep _ =>
    exact h.of_attempts hsound rfl rfl rfl
  | respace s hs => exact h.respace hs.allocated hs.reclaiming hs.recordCount hs.metadataBytes
  | insert r bs ho => exact h.insertRecord ho
  | share kind flag => exact h.share kind flag
  | record r r' hr hm => exact h.writeRecord hr hm.same.1 hm.same.2 hm.terminal_eq
  | remove r hr ht hblobs _ => exact h.removeRecord hr ht fun b hb => (hblobs b hb).1
  | blob b b' hb hm =>
    obtain ⟨hid, hrec, hsize⟩ := hm.same
    obtain ⟨howed, hcharged⟩ := hm.charged h hb
    exact h.putBlob hb hid hrec hsize howed hcharged
  | start b a hb hd ha _ | restart b a a' new hb hd ha hab _ _ ha' hnew =>
    have hs : TransferState.initiating ≠ .cleaned := by simp
    exact (h.relabel hb hd hs).of_attempts hsound rfl rfl rfl
  | clean b a a' hb ha _ _ _ _ ha' =>
    unfold ReleaseRule.cleanAttempt at hsound ⊢
    split_ifs at hsound ⊢ with hall
    · exact (h.discharge hb hall.2).of_attempts hsound rfl rfl rfl
    · exact h.of_attempts hsound rfl rfl rfl
  | rearm r b a a' now hr hrb hb ha _ _ ha' _ =>
    unfold Ledger.rearm at hsound ⊢
    split_ifs at hsound ⊢ with hcharge
    · exact (h.recharge hr hrb hb hcharge.1 hcharge.2).of_attempts hsound rfl rfl rfl
    · exact h.of_attempts hsound rfl rfl rfl
  | repair r b a recover now hr hrb hb ha _ _ hrecover _ _ =>
    unfold Attempts.repairBlob at hsound ⊢
    split_ifs at hsound ⊢ with hdraft hcharge
    · have hs : TransferState.reserved ≠ .cleaned := by simp
      exact (h.relabel hb ⟨r, hr, hrb, hdraft.1⟩ hs).of_attempts hsound rfl rfl rfl
    · exact (h.recharge hr hrb hb hcharge.1 hcharge.2).of_attempts hsound rfl rfl rfl
    · exact h.of_attempts hsound rfl rfl rfl

/-- **Every transaction keeps the accounts.** -/
theorem Effect.accounted (hrule : w.rule.Lawful) {l' : Ledger} (h : l.Accounted)
    (he : Effect w l l') : l'.Accounted :=
  he.preserves (fun _ _ h hc => hc.accounted h)
    (fun _ _ _ now h hr hlive hstate => h.release hrule hr hlive hstate now) h

/-- The accounts of a new space. -/
theorem Db.created_accounted (spaceId profile : String) (limits : Limits) (creator : Principal)
    (now : Time) : (Db.created spaceId profile limits creator now).ledger.Accounted := by
  have hsound : (Db.created spaceId profile limits creator now).ledger.Sound := by
    constructor <;> simp [Db.created, Table.Keyed]
  exact
    { toSound := hsound
      declared := by simp [Db.created]
      charged := by simp [Db.created]
      allocated := rfl
      reclaiming := rfl
      recordCount := rfl
      metadataBytes := rfl }

end Hf2l.Exchange
