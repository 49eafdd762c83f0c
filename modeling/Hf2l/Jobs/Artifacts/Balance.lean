import Hf2l.Jobs.Artifacts.Retention
import Hf2l.Lib.Checked
import Hf2l.Lib.Run

/-!
# `Hf2l.Jobs.Artifacts.Balance`: the ledger of retained bytes balances

`ledger` adds up, from the rows, what a project is charged for: the charges of its resources
that were not given back and the charges of its log chunks that were not deleted. The column
`retained_bytes` of the project is a running total of the same thing.

`Books db db' projectId δ` says that the rows of `db'` owe `δ` more for one project than those
of `db`, and the same for every other. Each operation is a `Books` step together with an
update of `retained_bytes` by the same amount (`Ledgered.post`), so the two stay equal.
-/

set_option autoImplicit false

namespace Hf2l.Jobs.Artifacts

open Lib Lib.Checked Jobs.Scheduler

/-! ### The calls, and what other code does to the rows -/

inductive Call where
  | reserve (resourceId : ResourceId) (jobId : Id) (maximum : Int)
  | charge (resourceId : ResourceId) (jobId : Id) (size : Int)
  | settle (resourceId : ResourceId) (jobId : Id) (actual : Int)
  | chargeLog (chunk : LogChunk) (budgetId : Option ResourceId)
  | transferReserved (reservationId : ResourceId) (children : List ResourceId)
  | confirmResourceDeleted (resourceId : ResourceId) (jobId : Id)
  | confirmJobDataDeleted (jobId : Id) (now : Time)

/-- The body of the transaction. -/
def body (db : Db) : Call → Except Refusal Db
  | .reserve resourceId jobId maximum => reserveResource db resourceId jobId maximum
  | .charge resourceId jobId size => chargeResource db resourceId jobId size
  | .settle resourceId jobId actual => settleResource db resourceId jobId actual
  | .chargeLog chunk budgetId => chargeLog db chunk budgetId
  | .transferReserved reservationId children => transferReserved db reservationId children
  | .confirmResourceDeleted resourceId jobId => confirmResourceDeleted db resourceId jobId
  | .confirmJobDataDeleted jobId now => confirmJobDataDeleted db jobId now

/-- `WithTx`: a transaction whose body fails is rolled back. -/
def perform (db : Db) (call : Call) : Option Refusal × Db :=
  match body db call with
  | .error e => (some e, db)
  | .ok db' => (none, db')

/-- A change that other code makes to a resource: its state, its size, its details, but not
its owner and not its charge. -/
structure Rewrite where
  row : Resource → Resource
  id : ∀ r, (row r).id = r.id
  jobId : ∀ r, (row r).jobId = r.jobId
  charged : ∀ r, (row r).details.retentionChargedBytes = r.details.retentionChargedBytes
  released : ∀ r, (row r).details.retentionChargeReleased = r.details.retentionChargeReleased

inductive Action where
  | call (c : Call)
  /-- A resource is planned. Nothing is charged for it yet. -/
  | plan (r : Resource)
  | rewrite (resourceId : ResourceId) (w : Rewrite)
  | jobState (jobId : Id) (state : JobState)
  | allocations (rows : List Allocation)

def plan (db : Db) (r : Resource) : Db :=
  if (Table.get (·.id) r.id db.resources).isSome then db
  else { db with resources := db.resources ++
      [{ r with details := { r.details with retentionChargedBytes := none } }] }

def step (db : Db) : Action → Db
  | .call c => (perform db c).2
  | .plan r => plan db r
  | .rewrite resourceId w => updateResource db resourceId w.row
  | .jobState jobId state =>
    { db with jobs := Table.modify (·.id) jobId (fun j => { j with state := state }) db.jobs }
  | .allocations rows => { db with allocations := rows }

/-! ### The ledger, read from the rows -/

/-- What the resources of a project owe. -/
def resourceCharges (db : Db) (projectId : String) : Int :=
  Table.total (fun r => if projectOf db r.jobId = some projectId then owed r else 0) db.resources

/-- What a log chunk owes. -/
def chunkOwed (c : LogChunk) : Int := if c.deletedAt = none then c.chargedBytes else 0

/-- What the log chunks of a project owe. -/
def chunkCharges (db : Db) (projectId : String) : Int :=
  Table.total (fun c => if projectOf db c.jobId = some projectId then chunkOwed c else 0) db.chunks

def ledger (db : Db) (projectId : String) : Int :=
  resourceCharges db projectId + chunkCharges db projectId

/-- Primary keys, and a deleted log chunk is empty. -/
structure Kept (db : Db) : Prop where
  resources : Table.Keyed (·.id) db.resources
  chunks : Table.Keyed (·.id) db.chunks
  erased : ∀ c ∈ db.chunks, c.deletedAt ≠ none → c.chargedBytes = 0 ∧ c.data = ""

/-- The books are right. -/
structure Ledgered (db : Db) : Prop extends Kept db where
  balance : ∀ p ∈ db.projects, p.retainedBytes = ledger db p.id

theorem owed_nonneg (r : Resource) : 0 ≤ owed r := by
  unfold owed
  split <;> omega

theorem chunkOwed_nonneg (c : LogChunk) : 0 ≤ chunkOwed c := by
  unfold chunkOwed
  split <;> omega

theorem ledger_nonneg (db : Db) (projectId : String) : 0 ≤ ledger db projectId := by
  have hr : 0 ≤ resourceCharges db projectId := Table.total_nonneg fun r _ => by
    have := owed_nonneg r
    split <;> omega
  have hc : 0 ≤ chunkCharges db projectId := Table.total_nonneg fun c _ => by
    by_cases h : projectOf db c.jobId = some projectId
    · rw [if_pos h]
      exact chunkOwed_nonneg c
    · rw [if_neg h]
  unfold ledger
  omega

/-! ### Bookings -/

/-- The rows owe `δ` more for one project, and the same for every other. -/
structure Books (db db' : Db) (projectId : String) (δ : Int) : Prop where
  kept : Kept db'
  owner : ∀ jobId, projectOf db' jobId = projectOf db jobId
  projects : db'.projects = db.projects
  moves : ∀ q, ledger db' q = ledger db q + if q = projectId then δ else 0

section
variable {db db' db'' : Db} {projectId : String} {δ ε : Int}

theorem Books.refl (h : Kept db) : Books db db projectId 0 :=
  ⟨h, fun _ => rfl, rfl, fun q => by split <;> omega⟩

theorem Books.trans (h₁ : Books db db' projectId δ) (h₂ : Books db' db'' projectId ε) :
    Books db db'' projectId (δ + ε) := by
  refine ⟨h₂.kept, fun j => (h₂.owner j).trans (h₁.owner j), h₂.projects.trans h₁.projects,
    fun q => ?_⟩
  rw [h₂.moves q, h₁.moves q]
  split <;> omega

/-- **A row of a resource is rewritten.** The project of its job owes the difference. -/
theorem Books.resource (h : Kept db) {r : Resource} (r' : Resource) (hr : r ∈ db.resources)
    (hid : r'.id = r.id) (hjob : r'.jobId = r.jobId)
    (howner : projectOf db r.jobId = some projectId) :
    Books db (updateResource db r.id fun _ => r') projectId (owed r' - owed r) := by
  have hput : (updateResource db r.id fun _ => r').resources = Table.put (·.id) r' db.resources :=
    h.resources.modify_eq_put (h.resources.get_eq hr) hid
  refine ⟨⟨?_, h.chunks, h.erased⟩, fun _ => rfl, rfl, fun q => ?_⟩
  · rw [hput]
    exact h.resources.put r'
  · show resourceCharges _ q + chunkCharges db q = _
    have htotal : resourceCharges (updateResource db r.id fun _ => r') q =
        resourceCharges db q + if q = projectId then owed r' - owed r else 0 := by
      show Table.total (fun x => if projectOf db x.jobId = some q then owed x else 0)
        (updateResource db r.id fun _ => r').resources = _
      rw [hput, Table.total_put _ h.resources hr hid]
      simp only [hjob, howner, Option.some.injEq, resourceCharges, eq_comm (a := projectId)]
      split <;> omega
    rw [htotal]
    unfold ledger
    omega

/-- A project pays for a booking. -/
theorem Ledgered.post (h : Ledgered db) (hb : Books db db' projectId δ) {project : Project}
    (hp : project ∈ db.projects) (hid : project.id = projectId) {retained : Int} (version : Nat)
    (hr : retained = project.retainedBytes + δ) :
    Ledgered (updateProject db' projectId
      fun p => { p with retainedBytes := retained, version := version }) := by
  refine ⟨⟨hb.kept.resources, hb.kept.chunks, hb.kept.erased⟩, fun p hmem => ?_⟩
  rcases Table.mem_modify.mp hmem with ⟨hmem, hne⟩ | ⟨q, hmem, hq, rfl⟩
  · -- Another project: neither its column nor its rows have changed.
    have hledger := hb.moves p.id
    rw [if_neg hne] at hledger
    rw [hb.projects] at hmem
    show p.retainedBytes = ledger db' p.id
    rw [h.balance p hmem]
    omega
  · have hledger := hb.moves projectId
    rw [if_pos rfl, ← hid, ← h.balance project hp, ← hr] at hledger
    show retained = ledger db' q.id
    rw [hq, ← hledger, hid]

/-- A booking of nothing. -/
theorem Ledgered.books_zero (h : Ledgered db) (hb : Books db db' projectId 0) : Ledgered db' := by
  refine ⟨hb.kept, fun p hp => ?_⟩
  rw [hb.projects] at hp
  rw [h.balance p hp, hb.moves p.id]
  split <;> omega

end

/-! ### The operations -/

section
variable {db db' : Db} {resourceId : ResourceId} {jobId : Id} {l : Locked}

/-- The project that is found through a job's row is the project of that job. -/
theorem projectOf_eq {job : Job} {project : Project}
    (hj : Table.get (·.id) jobId db.jobs = some job)
    (hp : Table.get (·.id) job.projectId db.projects = some project) :
    projectOf db jobId = some project.id := by
  unfold projectOf
  rw [hj, (Table.get_mem hp).2]
  rfl

/-- The rows that an operation has locked belong together. -/
structure Found (db : Db) (l : Locked) : Prop where
  resource : l.resource ∈ db.resources
  project : l.project ∈ db.projects
  owner : projectOf db l.resource.jobId = some l.project.id

theorem lockResource_ok (h : lockResource db resourceId jobId = .ok l) :
    Found db l ∧ l.resource.id = resourceId := by
  unfold lockResource at h
  cases hr : Table.get (·.id) resourceId db.resources with
  | none => rw [hr] at h; cases h
  | some r =>
    simp only [hr, refuse_ok, bind_ok] at h
    obtain ⟨hown, pool, -, h⟩ := h
    cases hj : Table.get (·.id) jobId db.jobs with
    | none => rw [hj] at h; cases h
    | some job =>
      simp only [hj] at h
      cases hp : Table.get (·.id) job.projectId db.projects with
      | none => rw [hp] at h; cases h
      | some project =>
        simp only [hp, pure_ok] at h
        subst h
        have hjob : r.jobId = jobId := by
          by_contra hne
          exact hown (Or.inl hne)
        exact ⟨⟨(Table.get_mem hr).1, (Table.get_mem hp).1, projectOf_eq (hjob ▸ hj) hp⟩,
          (Table.get_mem hr).2⟩

theorem sumBytes_ok {a b n : Int} (h : sumBytes a b = .ok n) : n = a + b := by
  simp only [sumBytes, refuse_ok, pure_ok] at h
  exact h.2.symm

variable {amount : Int}

/-- A reservation adds its amount to `retained_bytes`, and nothing else. -/
theorem projectReserve_ok {project : Project} (h : projectReserve db project amount = .ok db') :
    0 ≤ amount ∧ db' = updateProject db project.id fun p =>
      { p with
        retainedBytes := project.retainedBytes + amount, version := project.version + 1 } := by
  simp only [projectReserve, block_ok] at h
  obtain ⟨hneg, total, htotal, -, rfl⟩ := h
  rw [sumBytes_ok htotal]
  exact ⟨Int.not_lt.mp hneg, rfl⟩

section
variable (h : Ledgered db)
include h

/-- A new charge of a resource that its project pays for. -/
theorem Ledgered.charged (hl : Found db l) (hnone : l.resource.details.retentionChargedBytes = none)
    {db₁ : Db} (hp : projectReserve db l.project amount = .ok db₁) {row : Resource}
    (hid : row.id = l.resource.id) (hjob : row.jobId = l.resource.jobId)
    (howed : owed row = amount.toNat) :
    Ledgered (updateResource db₁ l.resource.id fun _ => row) := by
  obtain ⟨hpos, rfl⟩ := projectReserve_ok hp
  -- A resource that was never charged owes nothing.
  have hzero : owed l.resource = 0 := by simp [owed, hnone]
  have hb := Books.resource h.toKept _ hl.resource hid hjob hl.owner
  exact h.post hb hl.project rfl _ (by omega)

theorem chargeResource_ledgered {size : Int}
    (hr : chargeResource db resourceId jobId size = .ok db') : Ledgered db' := by
  simp only [chargeResource, block_ok] at hr
  obtain ⟨l, hl, -, hr⟩ := hr
  obtain ⟨hl, -⟩ := lockResource_ok hl
  simp only [chargeInTransaction, guard_ok] at hr
  obtain ⟨-, hr⟩ := hr
  cases hc : l.resource.details.retentionChargedBytes with
  | some old =>
    simp only [hc, guard_ok, pure_ok] at hr
    exact hr.2 ▸ h
  | none =>
    simp only [hc, block_ok] at hr
    obtain ⟨-, db₁, hp, rfl⟩ := hr
    exact h.charged hl hc hp rfl rfl rfl

theorem reserveResource_ledgered {maximum : Int}
    (hr : reserveResource db resourceId jobId maximum = .ok db') : Ledgered db' := by
  simp only [reserveResource, bind_ok] at hr
  obtain ⟨l, hl, hr⟩ := hr
  obtain ⟨hl, -⟩ := lockResource_ok hl
  simp only [reserveInTransaction, guard_ok] at hr
  obtain ⟨-, -, -, -, hr⟩ := hr
  cases hc : l.resource.details.retentionChargedBytes with
  | some charged =>
    -- A replay: whatever the checks say, no row is written.
    simp only [hc] at hr
    have hsame : db = db' := by
      split at hr <;> exact (guard_ok.mp hr).2 |> pure_ok.mp
    exact hsame ▸ h
  | none =>
    simp only [hc, block_ok] at hr
    obtain ⟨-, db₁, hp, rfl⟩ := hr
    exact h.charged hl hc hp rfl rfl rfl

/-- A row is rewritten, and its project gets back what the row owes less. -/
theorem Ledgered.returned (hl : Found db l) (versions : Nat) {row : Resource}
    (hid : row.id = l.resource.id) (hjob : row.jobId = l.resource.jobId)
    (howed : owed row = owed l.resource - amount) :
    Ledgered (updateResource (projectRelease db l.project amount versions) l.resource.id
      fun _ => row) := by
  have hb := Books.resource h.toKept _ hl.resource hid hjob hl.owner
  exact h.post hb hl.project rfl _ (by omega)

theorem settleResource_ledgered {actual : Int}
    (hr : settleResource db resourceId jobId actual = .ok db') : Ledgered db' := by
  simp only [settleResource, block_ok] at hr
  obtain ⟨hneg, l, hl, hlive, hr⟩ := hr
  obtain ⟨hl, -⟩ := lockResource_ok hl
  cases hc : l.resource.details.retentionChargedBytes with
  | none => rw [hc] at hr; cases hr
  | some charged =>
    simp only [hc] at hr
    split at hr
    · exact (guard_ok.mp hr).2 |> pure_ok.mp |> fun e => e ▸ h
    · simp only [refuse_ok, guard_ok, pure_ok] at hr
      obtain ⟨-, -, rfl⟩ := hr
      have hreleased : l.resource.details.retentionChargeReleased = false := by
        by_contra hne
        exact hlive (Or.inr (by simpa using hne))
      refine h.returned hl _ (by rfl) (by rfl) ?_
      simp [owed, settledRow, hreleased, hc]
      omega

theorem confirmResourceDeleted_ledgered
    (hr : confirmResourceDeleted db resourceId jobId = .ok db') : Ledgered db' := by
  simp only [confirmResourceDeleted, block_ok] at hr
  obtain ⟨l, hl, -, hr⟩ := hr
  obtain ⟨hl, -⟩ := lockResource_ok hl
  split at hr
  · exact pure_ok.mp hr ▸ h
  · rename_i hreleased
    simp only [guard_ok, pure_ok] at hr
    obtain ⟨-, rfl⟩ := hr
    refine h.returned hl _ (by rfl) (by rfl) ?_
    simp [owed, releasedRow, hreleased]

end

end

/-! ### Log chunks -/

section
variable {db db' : Db} {projectId : String} {chunk c' : LogChunk}

theorem Kept.presented_erased (h : Kept db) (hdel : (presented db chunk).deletedAt ≠ none) :
    (presented db chunk).chargedBytes = 0 ∧ (presented db chunk).data = "" := by
  unfold presented at hdel ⊢
  cases hg : Table.get (·.id) chunk.id db.chunks with
  | none =>
    rw [hg] at hdel
    exact absurd rfl hdel
  | some c =>
    rw [hg] at hdel
    exact h.erased c (Table.get_mem hg).1 hdel

/-- The same log chunk, with another content and another charge. -/
structure SameChunk (c c' : LogChunk) : Prop where
  id : c'.id = c.id
  jobId : c'.jobId = c.jobId
  deletedAt : c'.deletedAt = c.deletedAt
  erased : c'.deletedAt ≠ none → c'.chargedBytes = 0 ∧ c'.data = ""

/-- **A log chunk is stored.** The project of its job owes the difference. -/
theorem Books.store (h : Kept db) (chunk c' : LogChunk) (hc : SameChunk (presented db chunk) c')
    (howner : projectOf db c'.jobId = some projectId) :
    Books db (storeChunk db c') projectId (chunkOwed c' - chunkOwed (presented db chunk)) := by
  have hid := hc.id
  have hjob := hc.jobId
  unfold presented at hid hjob ⊢
  cases hg : Table.get (·.id) chunk.id db.chunks with
  | some c =>
    -- A replay writes the chunk over the stored one.
    obtain ⟨hmem, hkey⟩ := Table.get_mem hg
    rw [hg] at hid hjob
    simp only [Option.getD_some] at hid hjob ⊢
    have hstore : storeChunk db c' = { db with chunks := Table.put (·.id) c' db.chunks } := by
      unfold storeChunk
      rw [if_pos (by rw [hid, hkey, hg]; rfl)]
    rw [hstore]
    refine ⟨⟨h.resources, h.chunks.put c', fun x hx => ?_⟩, fun _ => rfl, rfl, fun q => ?_⟩
    · rcases Table.of_mem_put hx with ⟨hx, -⟩ | rfl
      · exact h.erased x hx
      · exact hc.erased
    · have htotal : chunkCharges { db with chunks := Table.put (·.id) c' db.chunks } q =
          chunkCharges db q + if q = projectId then chunkOwed c' - chunkOwed c else 0 := by
        show Table.total (fun x => if projectOf db x.jobId = some q then chunkOwed x else 0)
          (Table.put (·.id) c' db.chunks) = _
        rw [Table.total_put _ h.chunks hmem hid]
        simp only [← hjob, howner, Option.some.injEq, chunkCharges, eq_comm (a := projectId)]
        split <;> omega
      show resourceCharges db q + chunkCharges _ q = resourceCharges db q + chunkCharges db q + _
      omega
  | none =>
    have hfresh : ∀ x ∈ db.chunks, x.id ≠ c'.id := by
      rw [hg] at hid
      rw [hid]
      exact Table.get_none hg
    have hstore : storeChunk db c' = { db with chunks := db.chunks ++ [c'] } := by
      unfold storeChunk
      rw [hg] at hid
      rw [if_neg (by rw [hid]; simp [hg])]
    rw [hstore]
    refine ⟨⟨h.resources, h.chunks.concat hfresh, fun x hx => ?_⟩, fun _ => rfl, rfl, fun q => ?_⟩
    · rcases Table.mem_concat.mp hx with hx | rfl
      · exact h.erased x hx
      · exact hc.erased
    · show resourceCharges db q +
        Table.total (fun x => if projectOf db x.jobId = some q then chunkOwed x else 0)
        (db.chunks ++ [c']) = resourceCharges db q + chunkCharges db q + _
      rw [Table.total_append, Table.total_cons, Table.total_nil]
      simp only [howner, Option.some.injEq, chunkCharges, eq_comm (a := projectId),
        Option.getD_none, chunkOwed]
      split
      · simp
        omega
      · simp

theorem storeChunk_updateProject (f : Project → Project) :
    storeChunk (updateProject db projectId f) c' =
      updateProject (storeChunk db c') projectId f := by
  unfold storeChunk
  show (if (Table.get (·.id) c'.id db.chunks).isSome then _ else _) = _
  split <;> rfl

theorem keptContent_empty {d : ResourceDetails} {remaining : Int} (h : 0 ≤ remaining) :
    keptContent d "" remaining = "" := by
  unfold keptContent
  split
  · rfl
  · rw [if_neg (by simpa using h)]

/-- A budget pays for a chunk out of what is reserved: nobody owes more. -/
theorem Books.consumed {budget : Resource} (h : Kept db) (hmem : budget ∈ db.resources)
    (hzero : (presented db chunk).chargedBytes = 0)
    (howner : projectOf db (presented db chunk).jobId = some projectId)
    (hbudget : budget.jobId = (presented db chunk).jobId) (kept : String) (truncated : Bool)
    (hkept : (presented db chunk).deletedAt ≠ none → kept = "") :
    Books db (storeChunk
      (updateResource db budget.id fun _ => consumedRow budget (presented db chunk) kept truncated)
      { presented db chunk with data := kept, chargedBytes := 0 }) projectId 0 := by
  have hb := Books.resource h (consumedRow budget (presented db chunk) kept truncated) hmem rfl rfl
    (hbudget ▸ howner)
  have hc := Books.store hb.kept chunk { presented db chunk with data := kept, chargedBytes := 0 }
    ⟨rfl, rfl, rfl, fun hdel => ⟨rfl, hkept hdel⟩⟩ howner
  have hrow : owed (consumedRow budget (presented db chunk) kept truncated) - owed budget = 0 :=
    Int.sub_self (owed budget)
  have hchunk : chunkOwed { presented db chunk with data := kept, chargedBytes := 0 } -
      chunkOwed (presented db chunk) = 0 := by
    simp only [chunkOwed, hzero]
    omega
  have hboth := hb.trans hc
  rwa [hrow, show presented
    (updateResource db budget.id fun _ => consumedRow budget (presented db chunk) kept truncated)
    chunk = presented db chunk from rfl, hchunk] at hboth

/-- A chunk that is stored as it was presented. -/
theorem Books.replayed (h : Kept db)
    (howner : projectOf db (presented db chunk).jobId = some projectId) :
    Books db (storeChunk db (presented db chunk)) projectId 0 := by
  have hb := Books.store h chunk _ ⟨rfl, rfl, rfl, h.presented_erased⟩ howner
  rwa [Int.sub_self] at hb

theorem chargeBudget_books {project : Project} {budget : Resource} (h : Kept db)
    (hmem : budget ∈ db.resources)
    (howner : projectOf db (presented db chunk).jobId = some project.id)
    (hr : chargeBudget db project (presented db chunk) budget = .ok (c', db')) :
    Books db (storeChunk db' c') project.id 0 := by
  simp only [chargeBudget, refuse_ok] at hr
  obtain ⟨howns, hsound, hr⟩ := hr
  split at hr
  · cases hg : Table.get (·.id) (presented db chunk).id db.chunks with
    | none => rw [hg] at hr; cases hr
    | some previous =>
      simp only [hg, refuse_ok, pure_ok, Prod.mk.injEq] at hr
      obtain ⟨-, rfl, rfl⟩ := hr
      exact Books.replayed h howner
  · simp only [refuse_ok, pure_ok, Prod.mk.injEq] at hr
    obtain ⟨hzero, rfl, rfl⟩ := hr
    have hbudget : budget.jobId = (presented db chunk).jobId := by
      simp only [ownsChunk, Bool.not_eq_true', Bool.not_eq_false, Bool.and_eq_true,
        beq_iff_eq] at howns
      exact howns.1.1.1.1.1.1.1.1
    refine Books.consumed h hmem (Decidable.not_not.mp hzero) howner hbudget _ _ fun hdel => ?_
    -- A deleted chunk is empty, and what is kept of nothing is nothing.
    rw [(h.presented_erased hdel).2]
    exact keptContent_empty (by omega)

/-- Without a budget: the project pays for the whole content. -/
theorem Ledgered.logged {project : Project} (h : Ledgered db) (hp : project ∈ db.projects)
    (howner : projectOf db (presented db chunk).jobId = some project.id)
    (hzero : (presented db chunk).chargedBytes = 0) {db₁ : Db}
    (hr : projectReserve db project (presented db chunk).data.utf8ByteSize = .ok db₁) :
    Ledgered (storeChunk db₁
      { presented db chunk with chargedBytes := (presented db chunk).data.utf8ByteSize }) := by
  obtain ⟨-, rfl⟩ := projectReserve_ok hr
  have hempty : (presented db chunk).deletedAt ≠ none →
      (presented db chunk).data.utf8ByteSize = 0 := by
    intro hdel
    rw [(h.presented_erased hdel).2]
    rfl
  have hb := Books.store h.toKept chunk
      { presented db chunk with chargedBytes := (presented db chunk).data.utf8ByteSize }
    ⟨rfl, rfl, rfl, fun hdel => ⟨hempty hdel, (h.presented_erased hdel).2⟩⟩ howner
  rw [storeChunk_updateProject]
  refine h.post hb hp rfl _ ?_
  -- A deleted chunk is charged nothing, since it is empty.
  simp only [chunkOwed, hzero]
  split
  · omega
  · rename_i hdel
    rw [hempty hdel]
    omega

theorem chargeLog_ledgered {budgetId : Option ResourceId} (h : Ledgered db)
    (hr : chargeLog db chunk budgetId = .ok db') : Ledgered db' := by
  unfold chargeLog at hr
  cases hj : Table.get (·.id) (presented db chunk).jobId db.jobs with
  | none => simp only [hj] at hr; cases hr
  | some job =>
    cases hp : Table.get (·.id) job.projectId db.projects with
    | none => simp only [hj, hp] at hr; cases hr
    | some project =>
      simp only [hj, hp, bind_ok] at hr
      obtain ⟨budget, hbudget, ⟨c', db₁⟩, hr, hstore⟩ := hr
      cases hstore
      have hproject := (Table.get_mem hp).1
      have howner : projectOf db (presented db chunk).jobId = some project.id := projectOf_eq hj hp
      simp only [chargeLogInTransaction, guard_ok] at hr
      obtain ⟨-, hr⟩ := hr
      cases budget with
      | some budget =>
        have hmem : budget ∈ db.resources := by
          unfold budgetOf at hbudget
          split at hbudget
          · cases hbudget
          · split at hbudget
            · cases hbudget
            · rename_i hg
              cases hbudget
              exact (Table.get_mem hg).1
        exact h.books_zero (chargeBudget_books h.toKept hmem howner hr)
      | none =>
        simp only at hr
        split at hr
        · simp only [guard_ok, pure_ok, Prod.mk.injEq] at hr
          obtain ⟨-, rfl, rfl⟩ := hr
          exact h.books_zero (Books.replayed h.toKept howner)
        · rename_i hzero
          simp only [block_ok] at hr
          obtain ⟨db₂, hreserve, rfl, rfl⟩ := hr
          exact h.logged hproject howner (Decidable.not_not.mp hzero) hreserve

end

/-! ### Transfers -/

section
variable {db db' : Db}

theorem rowsOf_ok {ids : List ResourceId} {rows : List Resource} (h : rowsOf db ids = .ok rows) :
    ∀ r ∈ rows, r ∈ db.resources := by
  unfold rowsOf at h
  induction ids generalizing rows with
  | nil =>
    cases h
    simp
  | cons id ids ih =>
    simp only [List.mapM_cons, block_ok] at h
    obtain ⟨r, hr, rest, hrest, rfl⟩ := h
    intro x hx
    rcases List.mem_cons.mp hx with rfl | hx
    · split at hr
      · cases hr
      · rename_i hg
        cases hr
        exact (Table.get_mem hg).1
    · exact ih hrest x hx

/-- The loop over the parts of a collection: what has left the reservation is owed by the parts
that were passed, and the rows of the others are as they were. -/
structure Moves (db : Db) (reservation : Resource) (projectId : String) (rest : List Resource)
    (m : Moving) :
    Prop where
  books : Books db m.db projectId m.transferred
  left : m.available + m.transferred = reservation.details.retentionChargedBytes.getD 0
  reserve : reservation ∈ m.db.resources
  parts : ∀ c ∈ rest, c ∈ m.db.resources ∧ c.id ≠ reservation.id ∧ c.jobId = reservation.jobId
  distinct : (rest.map (·.id)).Nodup

theorem Moves.child {reservation child : Resource} {projectId : String} {rest : List Resource}
    {m m' : Moving} {wasSettled : Bool} (howner : projectOf db reservation.jobId = some projectId)
    (h : Moves db reservation projectId (child :: rest) m)
    (hr : transferChild reservation wasSettled m child = .ok m') :
    Moves db reservation projectId rest m' := by
  obtain ⟨hmem, hne, hjob⟩ := h.parts child List.mem_cons_self
  obtain ⟨hfirst, hdistinct⟩ := List.nodup_cons.mp h.distinct
  unfold transferChild at hr
  cases hc : child.details.retentionChargedBytes with
  | some charge =>
    simp only [hc, refuse_ok, pure_ok] at hr
    obtain ⟨-, rfl⟩ := hr
    exact ⟨h.books, h.left, h.reserve, fun c hmem => h.parts c (List.mem_cons_of_mem _ hmem),
      hdistinct⟩
  | none =>
    simp only [hc, refuse_ok, pure_ok] at hr
    obtain ⟨-, rfl⟩ := hr
    -- Rows with another identifier are not touched.
    have hother : ∀ c ∈ m.db.resources, c.id ≠ child.id →
        c ∈ (updateResource m.db child.id fun _ => transferredRow reservation child).resources :=
      fun c hc hne => Table.mem_modify.mpr (Or.inl ⟨hc, hne⟩)
    have hbooks := Books.resource h.books.kept (transferredRow reservation child) hmem rfl rfl
      (by rw [h.books.owner, hjob]; exact howner)
    have howed : owed (transferredRow reservation child) - owed child = child.sizeBytes := by
      simp [owed, transferredRow, hc]
    rw [howed] at hbooks
    refine ⟨h.books.trans hbooks, ?_, hother _ h.reserve (Ne.symm hne), fun c hmem => ?_, hdistinct⟩
    · have hleft := h.left
      show m.available - child.sizeBytes + (m.transferred + child.sizeBytes) = _
      omega
    · obtain ⟨hin, hrest⟩ := h.parts c (List.mem_cons_of_mem _ hmem)
      exact ⟨hother c hin fun e => hfirst (List.mem_map.mpr ⟨c, hmem, e⟩), hrest⟩

/-- The available bytes do not go below zero. -/
theorem transferChild_available {reservation child : Resource} {m m' : Moving} {wasSettled : Bool}
    (h : 0 ≤ m.available) (hr : transferChild reservation wasSettled m child = .ok m') :
    0 ≤ m'.available := by
  unfold transferChild at hr
  split at hr
  · simp only [refuse_ok, pure_ok] at hr
    exact hr.2 ▸ h
  · simp only [refuse_ok, pure_ok] at hr
    obtain ⟨hle, rfl⟩ := hr
    show 0 ≤ m.available - child.sizeBytes
    omega

theorem transferReserved_ledgered {reservationId : ResourceId} {children : List ResourceId}
    (h : Ledgered db) (hr : transferReserved db reservationId children = .ok db') :
    Ledgered db' := by
  unfold transferReserved at hr
  cases hres : Table.get (·.id) reservationId db.resources with
  | none => rw [hres] at hr; cases hr
  | some reservation =>
    cases hj : Table.get (·.id) reservation.jobId db.jobs with
    | none => simp only [hres, hj] at hr; cases hr
    | some job =>
      cases hp : Table.get (·.id) job.projectId db.projects with
      | none => simp only [hres, hj, hp] at hr; cases hr
      | some project =>
        simp only [hres, hj, hp, block_ok, transferReservedInTransaction] at hr
        obtain ⟨rows, hrows, -, -, hopen, hfits, hr⟩ := hr
        have hr : ∃ m,
            rows.foldlM (transferChild reservation
            (reservation.details.retentionChargeSettled.getD false))
            { available := reservation.details.retentionChargedBytes.getD 0, db := db } = .ok m ∧
            updateResource (projectRelease m.db project 0 0) reservation.id (fun _ =>
              collectedRow reservation (manifest rows) true m.available.toNat m.transferred.toNat) =
                db' := by
          split at hr
          · simp only [block_ok] at hr
            obtain ⟨-, -, m, hm, -, rfl⟩ := hr
            exact ⟨m, hm, by simp⟩
          · simp only [block_ok] at hr
            obtain ⟨m, hm, -, rfl⟩ := hr
            exact ⟨m, hm, by simp⟩
        obtain ⟨m, hm, rfl⟩ := hr
        have howner : projectOf db reservation.jobId = some project.id := projectOf_eq hj hp
        have hstart : Moves db reservation project.id rows
            { available := reservation.details.retentionChargedBytes.getD 0, db := db } := by
          simp only [not_or, Bool.not_eq_true', Bool.not_eq_false, List.all_eq_true,
            Decidable.not_not] at hfits
          refine ⟨Books.refl h.toKept, by simp, (Table.get_mem hres).1, fun c hc => ?_, hfits.2⟩
          have hfit := hfits.1 c hc
          simp only [fitsCollection, Bool.and_eq_true, bne_iff_ne, beq_iff_eq] at hfit
          exact ⟨rowsOf_ok hrows c hc, hfit.1.1.1.1.1, hfit.1.1.1.1.2⟩
        have hend := (Outcome.foldlM (F := fun _ => True) (Moves db reservation project.id)
          (fun c rest s hs => Outcome.intro (fun s' hs' => hs.child howner hs')
            (fun _ _ => trivial)) hstart).of_ok hm
        have havailable : 0 ≤ m.available :=
          foldlM_ok (fun s => 0 ≤ s.available) rows
            (fun s c _ s' hs hs' => transferChild_available hs hs')
            (by simp) hm
        have hbooks :=
          Books.resource hend.books.kept
            (collectedRow reservation (manifest rows) true m.available.toNat
          m.transferred.toNat) hend.reserve rfl rfl (by rw [hend.books.owner]; exact howner)
        have hreleased : reservation.details.retentionChargeReleased = false := by
          by_contra hne
          exact hopen (Or.inr (by simpa using hne))
        refine h.post (hend.books.trans hbooks) (Table.get_mem hp).1 rfl _ ?_
        -- The reservation owes less by what its parts owe more.
        have hleft := hend.left
        simp only [owed, collectedRow, hreleased, Option.getD_some]
        simp
        omega

end

/-! ### The data of a whole job -/

section
variable {db db' : Db} {jobId : Id} {now : Time}

theorem sumAll_ok {amounts : List Int} {start n : Int} (h : sumAll start amounts = .ok n) :
    n = start + amounts.sum := by
  unfold sumAll at h
  induction amounts generalizing start with
  | nil =>
    cases h
    simp
  | cons a amounts ih =>
    rw [List.foldlM_cons, bind_ok] at h
    obtain ⟨m, hm, h⟩ := h
    rw [ih h, sumBytes_ok hm, List.sum_cons]
    omega

/-- Rows of one project that owe nothing any more: the total goes down by what they owed. -/
theorem total_cleared {ρ : Type} {t : List ρ} {f : ρ → ρ} (selected : ρ → Bool) {owns : ρ → Prop}
    [DecidablePred owns] {charge : ρ → Int} {mine : Bool}
    (howns : ∀ x, selected x = true → (owns x ↔ mine = true)) (hkeep : ∀ x, owns (f x) ↔ owns x)
    (hclear : ∀ x, selected x = true → charge (f x) = 0)
    (hother : ∀ x, selected x = false → f x = x) :
    Table.total (fun x => if owns x then charge x else 0) (t.map f) =
      Table.total (fun x => if owns x then charge x else 0) t -
        if mine = true then Table.total charge (t.filter selected) else 0 := by
  have hrow : ∀ x ∈ t, (if owns x then charge x else 0) =
      (if owns (f x) then charge (f x) else 0) + if selected x then
        (if mine = true then charge x else 0) else 0 := by
    intro x _
    cases hs : selected x with
    | false => simp [hother x hs]
    | true => simp [hkeep, howns x hs, hclear x hs]
  rw [Table.total_map, Table.total_congr hrow, Table.total_add, ← Table.total_filter]
  cases mine with
  | true => simp
  | false =>
    simp [Table.total_eq_zero]

theorem confirmedRow_owed (r : Resource) : owed (confirmedRow jobId now r) = 0 := by
  simp [owed, confirmedRow, releasedRow]

theorem erasedChunk_owed (c : LogChunk) : chunkOwed (erasedChunk now c) = 0 := by
  simp [chunkOwed, erasedChunk]

/-- An update of a job that keeps its identifier and its project. -/
theorem projectOf_modify {f : Job → Job} (hid : ∀ j, (f j).id = j.id)
    (hproject : ∀ j, (f j).projectId = j.projectId) (j : Id) :
    (Table.get (·.id) j (Table.modify (·.id) jobId f db.jobs)).map (·.projectId) =
      projectOf db j := by
  rw [Table.get_modify fun x hx => (hid x).trans hx]
  by_cases hj : j = jobId
  · subst hj
    rw [if_pos rfl, Option.map_map]
    exact congrArg (Option.map · _) (funext hproject)
  · rw [if_neg hj]
    rfl

theorem projectOf_erasedDb (j : Id) : projectOf (erasedDb db jobId now) j = projectOf db j :=
  projectOf_modify (fun x => by split <;> rfl) (fun x => by split <;> rfl) j

/-- What is given back when the data of a job is gone. -/
def jobOwed (db : Db) (jobId : Id) : Int :=
  Table.total owed (db.resources.filter fun r => r.jobId == jobId && r.retained) +
    Table.total chunkOwed (db.chunks.filter fun c => c.jobId == jobId)

theorem erasedDb_kept (h : Kept db) : Kept (erasedDb db jobId now) := by
  refine ⟨h.resources.map fun r _ => ?_, h.chunks.map fun c _ => ?_, fun c hc hdel => ?_⟩
  · split <;> rfl
  · split <;> rfl
  · obtain ⟨x, hx, rfl⟩ := List.mem_map.mp hc
    split
    · exact ⟨rfl, rfl⟩
    · rename_i hother
      simp only [if_neg hother] at hdel
      exact h.erased x hx hdel

/-- **The data of a job is gone.** Its project owes less by what the rows of the job owed. -/
theorem Books.erased {projectId : String} (h : Kept db)
    (howner : projectOf db jobId = some projectId) :
    Books db (erasedDb db jobId now) projectId (-jobOwed db jobId) := by
  refine ⟨erasedDb_kept h, projectOf_erasedDb, rfl, fun q => ?_⟩
  have hmine : ∀ j, (j == jobId) = true →
      (projectOf db j = some q ↔ decide (q = projectId) = true) := by
    intro j hj
    rw [beq_iff_eq.mp hj, howner, decide_eq_true_iff, Option.some.injEq, eq_comm]
  have hresources : resourceCharges (erasedDb db jobId now) q = resourceCharges db q -
      if decide (q = projectId) = true then
        Table.total owed (db.resources.filter fun r => r.jobId == jobId && r.retained) else 0 := by
    simp only [resourceCharges, projectOf_erasedDb]
    refine total_cleared (fun r : Resource => r.jobId == jobId && r.retained)
      (fun r hs => hmine r.jobId (Bool.and_eq_true _ _ ▸ hs).1) (fun r => ?_) (fun r hs => ?_)
        (fun r hs => ?_)
    · split <;> exact Iff.rfl
    · rw [if_pos hs]
      exact confirmedRow_owed r
    · exact if_neg (by simp [hs])
  have hchunks : chunkCharges (erasedDb db jobId now) q = chunkCharges db q - if decide
      (q = projectId) = true then
        Table.total chunkOwed (db.chunks.filter fun c => c.jobId == jobId) else 0 := by
    simp only [chunkCharges, projectOf_erasedDb]
    refine total_cleared (fun c : LogChunk => c.jobId == jobId) (fun c hs => hmine c.jobId hs)
      (fun c => ?_)
      (fun c hs => ?_) (fun c hs => ?_)
    · split <;> exact Iff.rfl
    · rw [if_pos hs]
      exact erasedChunk_owed c
    · exact if_neg (by simp [hs])
  unfold Artifacts.ledger jobOwed
  rw [hresources, hchunks]
  by_cases hq : q = projectId
  · simp only [hq, decide_true, if_true]
    omega
  · simp only [hq, decide_false, if_false, Bool.false_eq_true]
    omega

theorem confirmJobDataDeleted_ledgered (h : Ledgered db)
    (hr : confirmJobDataDeleted db jobId now = .ok db') :
    Ledgered db' := by
  unfold confirmJobDataDeleted at hr
  cases hj : Table.get (·.id) jobId db.jobs with
  | none => rw [hj] at hr; cases hr
  | some job =>
    cases hp : Table.get (·.id) job.projectId db.projects with
    | none => simp only [hj, hp] at hr; cases hr
    | some project =>
      simp only [hj, hp, block_ok] at hr
      obtain ⟨-, -, -, rows, hrows, released, hreleased, -, rfl⟩ := hr
      have hchunks : Table.total (fun c : LogChunk => (c.chargedBytes : Int))
          (db.chunks.filter fun c => c.jobId == jobId) =
          Table.total chunkOwed (db.chunks.filter fun c => c.jobId == jobId) := by
        refine Table.total_congr fun c hc => ?_
        unfold chunkOwed
        split
        · rfl
        · rename_i hdel
          rw [(h.erased c (List.mem_filter.mp hc).1 hdel).1]
          rfl
      have hsum : released = jobOwed db jobId := by
        have h₁ := sumAll_ok hrows
        have h₂ := sumAll_ok hreleased
        rw [jobOwed, ← hchunks, h₂, h₁, Int.zero_add]
        rfl
      exact h.post (Books.erased h.toKept (projectOf_eq hj hp)) (Table.get_mem hp).1 rfl _
        (by omega)

end

/-! ### Runs -/

variable {db : Db}

theorem body_ledgered {db' : Db} {c : Call} (h : Ledgered db) (hr : body db c = .ok db') :
    Ledgered db' := by
  cases c with
  | reserve resourceId jobId maximum => exact reserveResource_ledgered h hr
  | charge resourceId jobId size => exact chargeResource_ledgered h hr
  | settle resourceId jobId actual => exact settleResource_ledgered h hr
  | chargeLog chunk budgetId => exact chargeLog_ledgered h hr
  | transferReserved reservationId children => exact transferReserved_ledgered h hr
  | confirmResourceDeleted resourceId jobId => exact confirmResourceDeleted_ledgered h hr
  | confirmJobDataDeleted jobId now => exact confirmJobDataDeleted_ledgered h hr

theorem plan_ledgered (h : Ledgered db) (r : Resource) : Ledgered (plan db r) := by
  unfold plan
  split
  · exact h
  · rename_i hnew
    have hfresh : ∀ x ∈ db.resources, x.id ≠ r.id := Table.get_none (by simpa using hnew)
    refine ⟨⟨h.resources.concat hfresh, h.chunks, h.erased⟩, fun p hp => ?_⟩
    rw [h.balance p hp]
    show resourceCharges db p.id + chunkCharges db p.id = Table.total _ (db.resources ++ [_]) +
      chunkCharges db p.id
    rw [Table.total_append, Table.total_cons, Table.total_nil]
    simp [owed, resourceCharges, projectOf]

theorem rewrite_ledgered (h : Ledgered db) (resourceId : ResourceId) (w : Rewrite) :
    Ledgered (updateResource db resourceId w.row) := by
  have howed : ∀ r, owed (w.row r) = owed r := by
    intro r
    unfold owed
    rw [w.released, w.charged]
  refine ⟨⟨h.resources.modify fun r hr => (w.id r).trans hr, h.chunks, h.erased⟩, fun p hp => ?_⟩
  rw [h.balance p hp]
  show resourceCharges db p.id + chunkCharges db p.id = Table.total _ (db.resources.map _) +
    chunkCharges db p.id
  rw [Table.total_map]
  refine congrArg (· + _) (Table.total_congr fun r _ => ?_)
  by_cases hr : r.id = resourceId
  · simp only [hr, if_true, w.jobId, howed]
    rfl
  · simp only [hr, if_false]
    rfl

theorem jobState_ledgered (h : Ledgered db) (jobId : Id) (state : JobState) :
    Ledgered { db with jobs := Table.modify (·.id) jobId (fun j =>
      { j with state := state }) db.jobs } := by
  have howner : ∀ j,
      projectOf { db with jobs := Table.modify (·.id) jobId (fun j =>
      { j with state := state }) db.jobs }
      j = projectOf db j :=
    projectOf_modify (fun _ => rfl) (fun _ => rfl)
  refine ⟨⟨h.resources, h.chunks, h.erased⟩, fun p hp => ?_⟩
  rw [h.balance p hp]
  simp only [ledger, resourceCharges, chunkCharges, howner]

theorem step_ledgered (db : Db) (a : Action) (h : Ledgered db) : Ledgered (step db a) := by
  cases a with
  | call c =>
    show Ledgered (perform db c).2
    unfold perform
    cases hr : body db c with
    | error e => exact h
    | ok db' => exact body_ledgered h hr
  | plan r => exact plan_ledgered h r
  | rewrite resourceId w => exact rewrite_ledgered h resourceId w
  | jobState jobId state => exact jobState_ledgered h jobId state
  | allocations rows => exact ⟨⟨h.resources, h.chunks, h.erased⟩, h.balance⟩

/-- **The books balance along every run.** From a database whose books are right, after any
calls in any order, `retained_bytes` of every project is the sum of what its rows owe and is
not negative; a call that is refused changes no row. -/
theorem retained_bytes_balance {db : Db} (h : Ledgered db) (run : List Action) :
    Run.Always step (fun db => ∀ p ∈ db.projects,
      p.retainedBytes =
        Table.total (fun r => if projectOf db r.jobId = some p.id ∧
          r.details.retentionChargeReleased = false
          then (r.details.retentionChargedBytes.getD 0 : Int) else 0) db.resources +
        Table.total (fun c => if projectOf db c.jobId = some p.id ∧ c.deletedAt = none
          then (c.chargedBytes : Int) else 0) db.chunks ∧
      0 ≤ p.retainedBytes) db run ∧
    Run.Every step (fun db a => ∀ c, a = .call c → (perform db c).1 ≠ none → (perform db c).2 = db)
      db run := by
  constructor
  · refine Run.always_of_invariant (J := Ledgered) step_ledgered (fun db h p hp => ?_) h run
    have hledger := h.balance p hp
    refine ⟨?_, hledger ▸ ledger_nonneg db p.id⟩
    rw [hledger]
    refine congrArg₂ (· + ·) (Table.total_congr fun r _ => ?_) (Table.total_congr fun c _ => ?_)
    · unfold owed
      cases r.details.retentionChargeReleased <;> simp
    · unfold chunkOwed
      split <;> simp_all
  · refine Run.every_of_forall (fun db a c _ hrefused => ?_) db run
    unfold perform at hrefused ⊢
    cases hr : body db c with
    | error e => rfl
    | ok db' =>
      rw [hr] at hrefused
      exact absurd rfl hrefused

/-- A project with one job. -/
def oneJob : Db :=
  { projects := [{ id := "p", quotaDiskBytes := some 1000 }]
    jobs := [{ id := 1, projectId := "p", createdAt := 0,
               spec := { components := [], targetRound := 1, maxDurationSeconds := 60, digest := "",
                         distinct := List.nodup_nil } }] }

/-- A planned resource of the job. -/
def plannedRow (id : Id) (size : Nat) : Resource :=
  { id := .other id, jobId := 1, componentId := "c", kind := "output", externalId := none
    state := .planned, ownership := { jobId := some 1 }, sizeBytes := size }

/-- Other code marks a resource as deleted. -/
def markDeleted : Rewrite :=
  ⟨fun r => { r with state := .deleted, deletedAt := some 5 }, fun _ => rfl, fun _ => rfl,
    fun _ => rfl, fun _ => rfl⟩

/-- A reservation of which a part goes to another resource, a log chunk that is sent twice, a
charge that is not covered by the quota, and then the deletion of everything. -/
def lifeOfData : List Action :=
  [.plan (plannedRow 1 0), .plan (plannedRow 2 30), .plan (plannedRow 3 0),
    .call (.reserve (.other 1) 1 100), .call (.transferReserved (.other 1) [.other 2]),
    .call (.chargeLog ⟨7, 1, 1, "c", 1, "hello", 0, none⟩ none),
    .call (.chargeLog ⟨7, 1, 1, "c", 1, "hello", 0, none⟩ none), .call (.charge (.other 3) 1 2000),
    .rewrite (.other 1) markDeleted, .call (.confirmResourceDeleted (.other 1) 1),
    .rewrite (.other 2) markDeleted, .jobState 1 .succeeded, .call (.confirmJobDataDeleted 1 9)]

theorem retained_bytes_balance_lifeOfData : Ledgered oneJob ∧
    ((lifeOfData.inits.map
      fun run => ((run.foldl step oneJob).projects.map (·.retainedBytes)).sum) =
      [0, 0, 0, 0, 100, 100, 105, 105, 105, 105, 35, 35, 35, 0]) ∧
    ∀ p ∈ (lifeOfData.foldl step oneJob).projects, 0 ≤ p.retainedBytes := by
  have h : Ledgered oneJob := by
    refine ⟨⟨List.nodup_nil, List.nodup_nil, fun c hc => absurd hc (by simp [oneJob])⟩,
      fun p hp => ?_⟩
    rw [List.mem_singleton.mp hp]
    rfl
  refine ⟨h, by decide +kernel, fun p hp => ?_⟩
  exact ((retained_bytes_balance h lifeOfData).1.last p hp).2

end Hf2l.Jobs.Artifacts
