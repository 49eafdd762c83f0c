import Hf2l.Jobs.Scheduler.Pass

/-!
# `Hf2l.Jobs.Scheduler.Steps`: what a verdict does to the rows

One lemma for each step of an admission says what the step did if it returned, and `Gang`
says what the steps have done together: the rows of a gang are new allocations and devices,
and resources of the job. `admitJob_ok` and `expire_ok` are the summaries for the loop over
the queue. `mem_shortages` says what a blocked job lacks.
-/

set_option autoImplicit false

namespace Hf2l.Jobs.Scheduler

open Lib Lib.Checked

/-! ### Inserts -/

variable {db db' : Db} {now : Time} {assigned : String → List String} {job : Job} {p : Pass}
  {planned : Planned} {s : Scheduler}

theorem insertAllocation_ok {a : Allocation} (h : insertAllocation db a = .ok db') :
    db' = { db with allocations := db.allocations ++ [a] } := by
  unfold insertAllocation at h
  split at h
  · cases h
  · exact (pure_ok.mp h).symm

theorem insertResource_ok {r : Resource} (h : insertResource db r = .ok db') :
    db' = { db with resources := db.resources ++ [r] } := by
  unfold insertResource at h
  split at h
  · cases h
  split at h
  · cases h
  · exact (pure_ok.mp h).symm

theorem insertOutbox_ok {item : OutboxItem} (h : insertOutbox db item = .ok db') :
    db' = { db with outbox := db.outbox ++ [item] } := by
  unfold insertOutbox at h
  split at h
  · cases h
  · exact (pure_ok.mp h).symm

/-- The item that `outbox` writes. -/
structure Announces (jobId : Id) (topic : Topic) (payload : Payload) (attemptId : Option Id)
    (item : OutboxItem) :
    Prop where
  jobId : item.jobId = jobId
  attemptId : item.attemptId = attemptId
  topic : item.topic = topic
  payload : item.payload = payload

theorem outbox_ok {jobId : Id} {topic : Topic} {payload : Payload} {attemptId : Option Id}
    (h : outbox now db jobId topic payload attemptId = .ok db') :
    ∃ item, Announces jobId topic payload attemptId item ∧
      db' = { db with outbox := db.outbox ++ [item] } := by
  unfold outbox at h
  cases hj : Table.get (·.id) jobId db.jobs with
  | none =>
    rw [hj] at h
    cases h
  | some job =>
    rw [hj] at h
    exact ⟨_, ⟨rfl, rfl, rfl, rfl⟩, insertOutbox_ok h⟩

theorem insertGpus_ok {poolId : String} {allocationId : Id} {taken : List String}
    (h : taken.foldlM (insertGpu poolId allocationId) db = .ok db') :
    ∃ rows : List GpuAllocation, (∀ g ∈ rows, g.allocationId = allocationId ∧ g.releasedAt = none) ∧
      db' = { db with gpus := db.gpus ++ rows } := by
  induction taken generalizing db with
  | nil =>
    rw [List.foldlM_nil, pure_ok] at h
    exact ⟨[], nofun, by simp [h]⟩
  | cons uuid taken ih =>
    rw [List.foldlM_cons, bind_ok] at h
    obtain ⟨m, hm, h⟩ := h
    unfold insertGpu at hm
    split at hm
    · cases hm
    · obtain ⟨rows, hrows, rfl⟩ := ih h
      rw [pure_ok] at hm
      subst hm
      exact ⟨{ id := Table.fresh (·.id) db.gpus, allocationId, poolId, gpuUuid := uuid } :: rows,
        List.forall_mem_cons.mpr ⟨⟨rfl, rfl⟩, hrows⟩, by simp⟩

/-! ### The steps of an admission -/

section
variable {attemptId : Id}

/-- A pass after one component. -/
structure Hired (job : Job) (attemptId : Id) (epoch : Nat) (c : ComponentSpec) (a a' : Admitting)
    (rows : List GpuAllocation) : Prop where
  devices : ∀ g ∈ rows, g.allocationId = Table.fresh (·.id) a.pass.db.allocations ∧
    g.releasedAt = none
  db : a'.pass.db = { a.pass.db with
    allocations := a.pass.db.allocations ++ [newAllocation a.pass.db job.id attemptId epoch c]
    gpus := a.pass.db.gpus ++ rows }
  blocked : a'.pass.blocked = a.pass.blocked
  created : a'.created = a.created ++ [Table.fresh (·.id) a.pass.db.allocations]

theorem admitComponent_ok {epoch : Nat} {c : ComponentSpec} {a a' : Admitting}
    (h : admitComponent s job attemptId epoch a c = .ok a') :
    ∃ rows, Hired job attemptId epoch c a a' rows := by
  simp only [admitComponent, block_ok, Prod.exists] at h
  obtain ⟨db₁, h₁, taken, rest, -, db₂, h₂, used, -, projectUsed, -, rfl⟩ := h
  have h₁' := insertAllocation_ok h₁
  subst h₁'
  obtain ⟨rows, hrows, rfl⟩ := insertGpus_ok h₂
  exact ⟨rows, hrows, rfl, rfl, rfl⟩

/-- A charge writes resources and projects only. -/
theorem reserveStorage_frame {d : Dialect} {db db' : Db} {r : Resource} {projectId : String}
    {maximum : Nat} {pool : Pool} (h : reserveStorage d db r projectId maximum pool = .ok db') :
    ∃ projects resources, db' = { db with projects := projects, resources := resources } := by
  simp only [reserveStorage] at h
  split at h
  · cases h
  split at h
  · cases h
  split at h
  · cases h
  split at h
  · obtain ⟨-, -, h⟩ := bind_ok.mp h
    rw [pure_ok] at h
    exact ⟨db.projects, db.resources, h.symm⟩
  · obtain ⟨-, -, h⟩ := bind_ok.mp h
    split at h
    · cases h
    · obtain ⟨-, -, h⟩ := bind_ok.mp h
      rw [pure_ok] at h
      exact ⟨_, _, h.symm⟩

/-- A pass after one entry of the storage plan. -/
structure Charged (e : StorageEntry) (a a' : Admitting) : Prop where
  db : ∃ projects resources,
    a'.pass.db = { a.pass.db with projects := projects, resources := resources }
  blocked : a'.pass.blocked = a.pass.blocked
  created : a'.created = a.created

theorem admitEntry_ok {e : StorageEntry} {a a' : Admitting}
    (h : admitEntry s job attemptId a e = .ok a') :
    Charged e a a' := by
  simp only [admitEntry, bind_ok, Prod.exists] at h
  obtain ⟨r, db₁, hrow, h⟩ := h
  have h₁ : ∃ resources, db₁ = { a.pass.db with resources := resources } := by
    unfold entryRow at hrow
    split at hrow
    · simp only [block_ok] at hrow
      obtain ⟨db₂, hinsert, -, rfl⟩ := hrow
      exact ⟨_, insertResource_ok hinsert⟩
    · simp only [pure_ok, Prod.mk.injEq] at hrow
      exact ⟨a.pass.db.resources, hrow.2.symm⟩
  obtain ⟨resources, rfl⟩ := h₁
  split at h
  · cases h
  · simp only [block_ok, mapError_ok] at h
    obtain ⟨db₂, hreserve, used, -, rfl⟩ := h
    obtain ⟨projects, resources', rfl⟩ := reserveStorage_frame hreserve
    exact ⟨⟨projects, resources', rfl⟩, rfl, rfl⟩

theorem bindLink_ok {db db' : Db} {l : Link} (h : bindLink attemptId db l = .ok db') :
    db' = updateResource db l.resourceId fun x => { x with attemptId := some attemptId } := by
  unfold bindLink at h
  split at h
  · cases h
  split at h
  · cases h
  · exact (pure_ok.mp h).symm

theorem bindLinks_ok {links : List Link} {db db' : Db}
    (h : links.foldlM (bindLink attemptId) db = .ok db') :
    ∃ resources, db' = { db with resources := resources } := by
  refine foldlM_ok (fun x => ∃ resources, x = { db with resources := resources }) links ?_
    ⟨db.resources, rfl⟩ h
  rintro x l - x' ⟨resources, rfl⟩ hx
  have h' := bindLink_ok hx
  exact ⟨_, h'⟩

theorem admitAttempt_ok {db db' : Db} {attempt : Attempt} {epoch : Nat}
    (h : admitAttempt db attempt epoch = .ok db') :
    db' = updateAttempt db attempt.id fun x =>
      { x with epoch := epoch, state := .provisioning, terminationConfirmed := false } := by
  unfold admitAttempt at h
  split at h
  · cases h
  · exact (pure_ok.mp h).symm

end

/-! ### The rows of a gang -/

/-- What the rows of a gang add to the database `db`: the allocations `new`, and devices for
them. Jobs, attempts, pools, operations and the outbox are as they were. -/
structure Gang (job : Job) (attemptId : Id) (epoch : Nat) (db : Db) (new : List Allocation)
    (rows : List GpuAllocation) (db' : Db) : Prop where
  rest : ∃ projects resources, db' = { db with
    allocations := db.allocations ++ new, gpus := db.gpus ++ rows, projects :=
      projects, resources := resources }
  fresh : ∀ a ∈ new, ∀ x ∈ db.allocations, x.id ≠ a.id
  row : ∀ a ∈ new, a.jobId = job.id ∧ a.attemptId = attemptId ∧ a.epoch = epoch ∧
    a.state = .reserved ∧ a.releasedAt = none ∧ a.terminationConfirmed = false
  devices : ∀ g ∈ rows, g.releasedAt = none ∧ ∃ a ∈ new, g.allocationId = a.id

section
variable {attemptId : Id} {epoch : Nat}

/-- What the loops of an admission keep, after the components `done`. -/
structure Admitting.Keeps (job : Job) (attemptId : Id) (epoch : Nat) (p : Pass)
    (done : List ComponentSpec) (a : Admitting) : Prop where
  gang : ∃ new rows, Gang job attemptId epoch p.db new rows a.pass.db ∧ new.map (·.id) = a.created ∧
    new.map (·.componentId) = done.map (·.componentId)
  blocked : a.pass.blocked = p.blocked

theorem Gang.nil (job : Job) (attemptId : Id) (epoch : Nat) (db : Db) :
    Gang job attemptId epoch db [] [] db where
  rest := ⟨db.projects, db.resources, by simp⟩
  fresh := by simp
  row := by simp
  devices := by simp

variable {rows : List GpuAllocation}

theorem Admitting.Keeps.hired {a a' : Admitting} {c : ComponentSpec} {done : List ComponentSpec}
    (h : a.Keeps job attemptId epoch p done) (hc : Hired job attemptId epoch c a a' rows) :
    a'.Keeps job attemptId epoch p (done ++ [c]) := by
  obtain ⟨⟨new, old, hg, hcreated, hdone⟩, hblocked⟩ := h
  obtain ⟨projects, resources, hdb⟩ := hg.rest
  refine ⟨⟨new ++ [newAllocation a.pass.db job.id attemptId epoch c], old ++ rows, ⟨?_, ?_, ?_, ?_⟩,
    ?_, ?_⟩, hc.blocked.trans hblocked⟩
  · refine ⟨projects, resources, ?_⟩
    rw [hc.db, hdb]
    simp
  · intro x hx y hy
    rcases List.mem_append.mp hx with hx | hx
    · exact hg.fresh x hx y hy
    · -- The identifier is above every identifier of the table.
      rw [List.mem_singleton] at hx
      subst hx
      have hin : y ∈ a.pass.db.allocations := by
        rw [hdb]
        exact List.mem_append_left _ hy
      have hlt : y.id < Table.fresh (·.id) a.pass.db.allocations := Table.lt_fresh hin
      exact Nat.ne_of_lt hlt
  · intro x hx
    rcases List.mem_append.mp hx with hx | hx
    · exact hg.row x hx
    · rw [List.mem_singleton] at hx
      subst hx
      exact ⟨rfl, rfl, rfl, rfl, rfl, rfl⟩
  · intro g hgin
    rcases List.mem_append.mp hgin with hgin | hgin
    · obtain ⟨hr, x, hx, he⟩ := hg.devices g hgin
      exact ⟨hr, x, List.mem_append_left _ hx, he⟩
    · obtain ⟨hid, hr⟩ := hc.devices g hgin
      exact ⟨hr, _, List.mem_append_right _ (List.mem_singleton_self _), hid⟩
  · rw [hc.created, List.map_append, hcreated]
    rfl
  · rw [List.map_append, hdone, List.map_append]
    rfl

theorem Admitting.Keeps.charged {a a' : Admitting} {e : StorageEntry} {done : List ComponentSpec}
    (h : a.Keeps job attemptId epoch p done) (hc : Charged e a a') :
    a'.Keeps job attemptId epoch p done := by
  obtain ⟨⟨new, rows, hg, hcreated, hdone⟩, hblocked⟩ := h
  obtain ⟨projects, resources, hdb⟩ := hg.rest
  obtain ⟨projects', resources', hdb'⟩ := hc.db
  refine ⟨⟨new, rows, ⟨⟨projects', resources', ?_⟩, hg.fresh, hg.row, hg.devices⟩, ?_, hdone⟩,
    hc.blocked.trans hblocked⟩
  · rw [hdb', hdb]
  · rw [hc.created, hcreated]

/-- Linking the created allocations touches no other. -/
theorem Gang.linked {new : List Allocation} {db' : Db}
    (h : Gang job attemptId epoch db new rows db') (links : List Link) {id : Id}
    (hid : id ∈ new.map (·.id)) :
    Gang job attemptId epoch db (Table.modify (·.id) id (linkDetails links) new) rows
      (updateAllocation db' id (linkDetails links)) where
  rest := by
    obtain ⟨projects, resources, rfl⟩ := h.rest
    refine ⟨projects, resources, ?_⟩
    obtain ⟨a, ha, rfl⟩ := List.mem_map.mp hid
    have hold := Table.modify_eq_self (f := linkDetails links) (h.fresh a ha)
    simp only [Table.modify] at hold
    simp only [updateAllocation, Table.modify, List.map_append, hold]
  fresh := by
    intro a ha x hx
    rcases Table.mem_modify.mp ha with ⟨ha, -⟩ | ⟨y, hy, -, rfl⟩
    · exact h.fresh a ha x hx
    · exact h.fresh y hy x hx
  row := by
    intro a ha
    rcases Table.mem_modify.mp ha with ⟨ha, -⟩ | ⟨y, hy, -, rfl⟩
    · exact h.row a ha
    · exact h.row y hy
  devices := by
    intro g hg
    obtain ⟨hr, a, ha, he⟩ := h.devices g hg
    refine ⟨hr, ?_⟩
    by_cases hia : a.id = id
    · exact ⟨linkDetails links a, Table.mem_modify.mpr (Or.inr ⟨a, ha, hia, rfl⟩), he⟩
    · exact ⟨a, Table.mem_modify.mpr (Or.inl ⟨ha, hia⟩), he⟩

theorem linkAllocations_gang (projectId : String) (links : List Link) {ids : List Id}
    {new : List Allocation} (h : Gang job attemptId epoch db new rows p.db)
    (hids : ∀ id ∈ ids, id ∈ new.map (·.id)) :
    let p' := ids.foldl (linkAllocation projectId links) p
    (∃ new', Gang job attemptId epoch db new' rows p'.db ∧ new'.map (·.id) = new.map (·.id) ∧
      new'.map (·.componentId) = new.map (·.componentId)) ∧ p'.blocked = p.blocked := by
  induction ids generalizing p new with
  | nil => exact ⟨⟨new, h, rfl, rfl⟩, rfl⟩
  | cons id ids ih =>
    have hsame : ∀ {β : Type} (f : Allocation → β), (∀ a, f (linkDetails links a) = f a) →
        (Table.modify (·.id) id (linkDetails links) new).map f = new.map f := by
      intro β f hf
      rw [Table.modify, List.map_map]
      refine List.map_congr_left fun a _ => ?_
      simp only [Function.comp_apply]
      split
      · exact hf a
      · rfl
    have hkeys := hsame (·.id) fun _ => rfl
    obtain ⟨⟨new', hg, hn, hc⟩, hrest⟩ := ih (p := linkAllocation projectId links p id)
      (h.linked links (hids id List.mem_cons_self))
      (fun x hx => hkeys ▸ hids x (List.mem_cons_of_mem id hx))
    exact ⟨⟨new', hg, hn.trans hkeys, hc.trans (hsame (·.componentId) fun _ => rfl)⟩, hrest⟩

end

/-- The database of a gang before its allocations: the job and its attempt are admitted. -/
def admittedDb (now : Time) (db : Db) (job : Job) (attempt : Attempt) : Db :=
  updateAttempt (updateJob db job.id (admittedJob now)) attempt.id fun x =>
    { x with epoch := job.epoch + 1, state := .provisioning, terminationConfirmed := false }

theorem admitGang_ok {attempt : Attempt} {a : Admitting}
    (h : admitGang s now p job attempt planned assigned = .ok a) :
    (∃ new rows, Gang job attempt.id (job.epoch + 1) (admittedDb now p.db job attempt) new rows
      a.pass.db ∧ new.map (·.id) = a.created ∧
      new.map (·.componentId) = job.spec.components.map (·.componentId)) ∧
    a.pass.blocked = p.blocked := by
  simp only [admitGang, block_ok] at h
  obtain ⟨db₁, hattempt, a₁, hcomponents, a₂, hentries, db₂, hlinks, rfl⟩ := h
  have hdb : db₁ = admittedDb now p.db job attempt := admitAttempt_ok hattempt
  subst hdb
  have h₀ : Admitting.Keeps job attempt.id (job.epoch + 1)
      { p with db := admittedDb now p.db job attempt } []
      { pass := { p with db := admittedDb now p.db job attempt }, assigned
        links := planned.links } :=
    ⟨⟨[], [], Gang.nil _ _ _ _, rfl, rfl⟩, rfl⟩
  have h₁ := foldlM_done (Admitting.Keeps job attempt.id (job.epoch + 1) _)
    (fun done x c x' hx hc => by
      obtain ⟨rows, hhired⟩ := admitComponent_ok hc
      exact hx.hired hhired) h₀ hcomponents
  have h₂ := foldlM_ok (Admitting.Keeps job attempt.id (job.epoch + 1) _ _) _
    (fun x e _ x' hx he => hx.charged (admitEntry_ok he)) h₁ hentries
  obtain ⟨⟨new, rows, hgang, hcreated, hdone⟩, hblocked⟩ := h₂
  obtain ⟨resources, rfl⟩ := bindLinks_ok hlinks
  have hgang' : Gang job attempt.id (job.epoch + 1) (admittedDb now p.db job attempt) new rows
      { a₂.pass.db with resources := resources } := by
    obtain ⟨projects, resources', hrest⟩ := hgang.rest
    exact ⟨⟨projects, resources, by rw [hrest]⟩, hgang.fresh, hgang.row, hgang.devices⟩
  obtain ⟨⟨new', hg, hn, hc⟩, hb⟩ := linkAllocations_gang job.projectId a₂.links
    (p := { a₂.pass with db := { a₂.pass.db with resources := resources } })
    hgang' (fun id hid => hcreated ▸ hid)
  exact ⟨⟨new', rows, hg, hn.trans hcreated, hc.trans hdone⟩, hb.trans hblocked⟩

/-! ### One job of the queue -/

/-- A verdict other than to wait or to close is one on the plans of the job. -/
theorem evaluate_judged {v : Verdict} (h : evaluate s now p job = .ok v) :
    (∃ why, v = .waits why) ∨ v = .expired ∨
      ∃ project planned, judge s p job project planned = .ok v := by
  unfold evaluate at h
  split at h
  · cases h
  split at h
  · exact Or.inl ⟨_, (pure_ok.mp h).symm⟩
  split at h
  · exact Or.inr (Or.inl (pure_ok.mp h).symm)
  split at h
  · exact Or.inl ⟨_, (pure_ok.mp h).symm⟩
  split at h
  · exact Or.inl ⟨_, (pure_ok.mp h).symm⟩
  simp only [appraise, bind_ok] at h
  obtain ⟨plans, -, h⟩ := h
  split at h
  · cases h
  split at h
  · cases h
  obtain ⟨examined, -, h⟩ := bind_ok.mp h
  cases examined with
  | unavailable poolId => exact Or.inl ⟨_, (pure_ok.mp h).symm⟩
  | planned found => exact Or.inr (Or.inr ⟨_, found, h⟩)

/-- A request that is admitted overtakes no job that is protected. -/
theorem evaluate_admits (h : evaluate s now p job = .ok (.admits planned assigned)) :
    protectedBy p planned.request = false := by
  rcases evaluate_judged h with ⟨why, he⟩ | he | ⟨project, found, h⟩
  · cases he
  · cases he
  simp only [judge, bind_ok] at h
  obtain ⟨exceeds, -, h⟩ := h
  split at h
  · cases h
  split at h
  · cases h
  split at h
  · cases h
  · rename_i hprotected
    simp only [pure_ok, Verdict.admits.injEq] at h
    exact h.1 ▸ Bool.eq_false_iff.mpr hprotected

/-- What a pool has left in one dimension. -/
def available (p : Pass) (poolId : String) (k : Dimension) : Int :=
  (Table.get (·.id) poolId p.db.pools).elim (0 : Int) (fun pool => (pool.capacity k : Int)) -
    p.used poolId k

theorem mem_lacks {r : Request} {poolId : String} {k : Dimension} :
    k ∈ (lacks p.db.pools p.used r poolId).map Prod.fst ↔
      available p poolId k < r.amount poolId k := by
  have hk : k ∈ dimensions := by cases k <;> decide
  simp only [lacks, List.mem_map, List.mem_filterMap, available]
  constructor
  · rintro ⟨e, ⟨k', -, he⟩, rfl⟩
    split at he
    · next hlt => cases he; exact hlt
    · cases he
  · intro hlt
    exact ⟨(k, _), ⟨k, hk, if_pos hlt⟩, rfl⟩

/-- **The shortages are the pool dimensions in which the request is above what is left,** and the
devices of every pool that is asked for some, if no exclusive choice of them was found. -/
theorem mem_shortages {r : Request} {noGpus : Bool} {poolId : String} {k : Dimension} :
    (∃ lacking, (poolId, lacking) ∈ shortages s p r noGpus ∧ k ∈ lacking.map Prod.fst) ↔
      poolId ∈ r.pools ∧ (available p poolId k < r.amount poolId k ∨
        noGpus = true ∧ k = .gpuCount ∧ 0 < r.amount poolId .gpuCount) := by
  have hlacking : k ∈ (if noGpus && decide (0 < r.amount poolId .gpuCount) then
      (lacks p.db.pools p.used r poolId).filter (fun l => l.1 != .gpuCount) ++
        [(.gpuCount, gpuLack s p.db.pools p.occupied r poolId)]
      else
        lacks p.db.pools p.used r poolId).map Prod.fst ↔ available p poolId k < r.amount poolId k ∨
        noGpus = true ∧ k = .gpuCount ∧ 0 < r.amount poolId .gpuCount := by
    rw [← mem_lacks]
    split
    · next hno =>
      by_cases hk : k = .gpuCount <;> simp_all
    · next hno =>
      refine ⟨Or.inl, ?_⟩
      rintro (hin | ⟨hno', -, hpos⟩)
      · exact hin
      · simp [hno', hpos] at hno
  simp only [shortages, List.mem_filterMap]
  constructor
  · rintro ⟨lacking, ⟨other, hin, he⟩, hk⟩
    obtain ⟨-, he⟩ := Option.ite_none_left_eq_some.mp he
    cases he
    exact ⟨hin, hlacking.mp hk⟩
  · rintro ⟨hin, hk⟩
    have hk := hlacking.mpr hk
    refine ⟨_, ⟨poolId, hin, if_neg ?_⟩, hk⟩
    intro hempty
    rw [List.isEmpty_iff.mp hempty] at hk
    cases hk

/-- A job is blocked by the shortages of what it asks for. -/
theorem evaluate_blocked {short : Shortages} (h : evaluate s now p job = .ok (.blocked short)) :
    ∃ request noGpus, short = shortages s p request noGpus := by
  rcases evaluate_judged h with ⟨why, he⟩ | he | ⟨project, found, h⟩
  · cases he
  · cases he
  simp only [judge, bind_ok] at h
  obtain ⟨exceeds, -, h⟩ := h
  split at h
  · cases h
  split at h
  · simp only [pure_ok, Verdict.blocked.injEq] at h
    exact ⟨_, _, h.symm⟩
  split at h
  · cases h
  · cases h

/-- The jobs after the blocked ones that a request overtakes are counted up. -/
def overtaken (r : Request) (blocked : List (Id × Shortages)) (jobs : List Job) : List Job :=
  blocked.foldl (fun jobs older =>
    if overlaps r older.2 then Table.modify (·.id) older.1 overtakenJob jobs else jobs) jobs

theorem countBackfills_eq (r : Request) (blocked : List (Id × Shortages)) (db : Db) :
    blocked.foldl (countBackfill r) db = { db with jobs := overtaken r blocked db.jobs } := by
  induction blocked generalizing db with
  | nil => rfl
  | cons older blocked ih =>
    rw [List.foldl_cons, ih, overtaken, overtaken, List.foldl_cons, countBackfill]
    split <;> rfl

/-- A pass after the admission of a job. -/
structure Booked (now : Time) (p : Pass) (job : Job) (planned : Planned) (p' : Pass)
    (attempt : Attempt) (new : List Allocation) (rows : List GpuAllocation) (db : Db)
    (item : OutboxItem) : Prop where
  gang : Gang job attempt.id (job.epoch + 1) (admittedDb now p.db job attempt) new rows db
  whole : new.map (·.componentId) = job.spec.components.map (·.componentId)
  announced : Announces job.id .dispatch { epoch := some (job.epoch + 1) } (some attempt.id) item
  stored : p'.db = { db with
    outbox := db.outbox ++ [item], jobs := overtaken planned.request p.blocked db.jobs }
  blocked : p'.blocked = p.blocked
  admitted : p'.admitted = p.admitted ++ [⟨job.id, attempt.id, job.epoch + 1, new.map (·.id)⟩]

theorem admitJob_ok {p' : Pass} (h : admitJob s now p job planned assigned = .ok p') :
    ∃ attempt new rows db item, Booked now p job planned p' attempt new rows db item := by
  unfold admitJob at h
  split at h
  · cases h
  · rename_i attempt hattempt
    simp only [block_ok] at h
    obtain ⟨a, hgang, db, houtbox, rfl⟩ := h
    obtain ⟨⟨new, rows, hg, hcreated, hwhole⟩, hblocked⟩ := admitGang_ok hgang
    obtain ⟨item, hitem, rfl⟩ := outbox_ok houtbox
    exact ⟨attempt, new, rows, a.pass.db, item, {
      gang := hg, whole := hwhole, announced := hitem
      stored := countBackfills_eq _ _ _
      blocked := hblocked, admitted := by rw [hcreated] }⟩

theorem expire_ok {p' : Pass} (h : expire now p job = .ok p') :
    ∃ item, Announces job.id .fenceStop { reason := some "deadline_exceeded" } none item ∧
      p' = { p with db := { updateJob p.db job.id
        expiredJob with outbox := p.db.outbox ++ [item] } } := by
  simp only [expire, block_ok] at h
  obtain ⟨db, houtbox, rfl⟩ := h
  obtain ⟨item, hitem, rfl⟩ := outbox_ok houtbox
  exact ⟨item, hitem, rfl⟩

end Hf2l.Jobs.Scheduler
