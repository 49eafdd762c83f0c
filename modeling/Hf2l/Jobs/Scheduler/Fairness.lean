import Hf2l.Jobs.Scheduler.Steps
import Hf2l.Lib.Run

/-!
# `Hf2l.Jobs.Scheduler.Fairness`: how often a queued job is overtaken

A pass gives the queued jobs their turns from the oldest to the youngest. `turns` is the
trace of a pass, and `FairTurn` says what a turn may do to the `backfill_count` of a job: it
never leads above `MaxBackfills`, it goes up by one only when a younger job is admitted past
a blocked one, and a job that has reached `MaxBackfills` is not overtaken in what it lacks.

`backfill_fair` is the result for every history: passes of either implementation, with
anything in between that writes a `backfill_count` as `CreateJob` and `terminalTx` do, to 0.
In `overtaking` a job is overtaken once and then cancelled.
-/

set_option autoImplicit false

namespace Hf2l.Jobs.Scheduler

open Lib Lib.Checked

/-! ### The trace of a pass -/

/-- One job's turn in a pass. -/
structure Turn where
  job : Job
  verdict : Verdict
  before : Db
  after : Db

/-- The request that was admitted. -/
def Turn.admits (t : Turn) : Option Request :=
  match t.verdict with
  | .admits planned _ => some planned.request
  | _ => none

/-- The dimensions that were short. -/
def Turn.short (t : Turn) : Option Shortages :=
  match t.verdict with
  | .blocked short => some short
  | _ => none

/-- The turns of `sweep`. -/
def turns (s : Scheduler) (limit : Nat) (now : Time) : List Job → Pass → List Turn
  | [], _ => []
  | job :: jobs, p =>
    if limit ≤ p.admitted.length then []
    else
      match evaluate s now p job with
      | .error _ => []
      | .ok verdict =>
        match settle s now p job verdict with
        | .error _ => []
        | .ok p' => ⟨job, verdict, p.db, p'.db⟩ :: turns s limit now jobs p'

/-- The turns of `schedule`. -/
def passTurns (s : Scheduler) (limit : Nat) (now : Time) (db : Db) : List Turn :=
  match start s.dialect db with
  | .error _ => []
  | .ok p => turns s limit now (queued db) p

/-- The turns lead from one database to the other. -/
def Linked : Db → List Turn → Db → Prop
  | db, [], db' => db = db'
  | db, t :: rest, db' => t.before = db ∧ Linked t.after rest db'

/-- `a` was submitted before `b`. -/
def Older (a b : Job) : Prop := Job.before a b = true ∧ a.id ≠ b.id

/-! ### Fairness -/

/-- What one turn does, after the turns `past` of the same pass. -/
structure FairTurn (past : List Turn) (t : Turn) : Prop where
  younger : ∀ o ∈ past, Older o.job t.job
  bounded : ∀ j ∈ t.after.jobs, j.backfillCount ≤ maxBackfills
  /-- A count that goes up goes up by one, because a younger job was admitted past. -/
  raised : ∀ id, backfills t.before id < backfills t.after id →
    backfills t.after id = backfills t.before id + 1 ∧ t.admits.isSome = true ∧
      ∃ o ∈ past, o.job.id = id ∧ o.short.isSome = true
  /-- A job that has been overtaken often enough is not overtaken in what it lacks. -/
  spared : ∀ o ∈ past, ∀ short ∈ o.short, ∀ request ∈ t.admits,
    maxBackfills ≤ backfills t.before o.job.id → overlaps request short = false

/-- What is admitted past a job that has been overtaken often enough asks nothing of a pool
dimension that the job lacks. -/
theorem FairTurn.asks_nothing {past : List Turn} {t o : Turn} {short : Shortages}
    {request : Request} (h : FairTurn past t) (ho : o ∈ past) (hshort : o.short = some short)
    (hr : t.admits = some request) (hfull : maxBackfills ≤ backfills t.before o.job.id)
    {poolId : String} {lacking : List (Dimension × Int)} (hin : (poolId, lacking) ∈ short)
    {k : Dimension} (hk : k ∈ lacking.map Prod.fst) :
    request.amount poolId k ≤ 0 := by
  by_contra hpos
  obtain ⟨e, he, rfl⟩ := List.mem_map.mp hk
  have hoverlaps : overlaps request short = true :=
    List.any_eq_true.mpr ⟨_, hin, List.any_eq_true.mpr ⟨e, he, by simpa using hpos⟩⟩
  rw [h.spared o ho short hshort request hr hfull] at hoverlaps
  cases hoverlaps

/-- A pass from `db` to `db'` that admitted these jobs. -/
structure FairPass (db db' : Db) (admitted : List Admission) (pass : List Turn) : Prop where
  linked : Linked db pass db'
  admissions : admitted.map (·.jobId) = (pass.filter (·.admits.isSome)).map (·.job.id)
  fair : ∀ past t rest, pass = past ++ t :: rest → FairTurn past t

/-! ### The counts after a step -/

section
variable {db : Db}

variable {f : Job → Job}

theorem get_updateJob (hid : ∀ j, (f j).id = j.id) (db : Db) (id k : Id) :
    Table.get (·.id) k (updateJob db id f).jobs =
      if k = id then (Table.get (·.id) id db.jobs).map f else Table.get (·.id) k db.jobs :=
  Table.get_modify (fun x hx => (hid x).trans hx) k db.jobs

theorem keyed_updateJob (hid : ∀ j, (f j).id = j.id) (h : Table.Keyed (·.id) db.jobs) (id : Id) :
    Table.Keyed (·.id) (updateJob db id f).jobs :=
  h.modify fun x hx => (hid x).trans hx

/-- An update that does not count: no job's count is above what it was. -/
theorem backfills_updateJob (hid : ∀ j, (f j).id = j.id)
    (hcount : ∀ j, (f j).backfillCount ≤ j.backfillCount) (db : Db) (id k : Id) :
    backfills (updateJob db id f) k ≤ backfills db k := by
  unfold backfills
  rw [get_updateJob hid]
  by_cases hk : k = id
  · rw [if_pos hk, hk]
    cases Table.get (·.id) id db.jobs with
    | none => exact le_refl 0
    | some j => exact hcount j
  · rw [if_neg hk]

theorem waitingJob_id (reason : QueueReason) (j : Job) : (waitingJob reason j).id = j.id := by
  unfold waitingJob
  split <;> rfl

theorem waitingJob_count (reason : QueueReason) (j : Job) :
    (waitingJob reason j).backfillCount ≤ j.backfillCount := by
  unfold waitingJob
  split <;> exact le_refl j.backfillCount

theorem keyed_overtaken (r : Request) (blocked : List (Id × Shortages)) {jobs : List Job}
    (h : Table.Keyed (·.id) jobs) : Table.Keyed (·.id) (overtaken r blocked jobs) := by
  induction blocked generalizing jobs with
  | nil => exact h
  | cons older blocked ih =>
    rw [overtaken, List.foldl_cons]
    refine ih ?_
    split
    · exact h.modify fun x hx => hx
    · exact h

theorem backfills_overtakenJob (db : Db) (id k : Id) :
    backfills (updateJob db id overtakenJob) k = backfills db k ∨
      k = id ∧ backfills (updateJob db id overtakenJob) k = backfills db k + 1 := by
  unfold backfills
  rw [get_updateJob (f := overtakenJob) fun j => rfl]
  by_cases hk : k = id
  · rw [if_pos hk, hk]
    cases Table.get (·.id) id db.jobs with
    | none => exact Or.inl rfl
    | some j => exact Or.inr ⟨rfl, rfl⟩
  · rw [if_neg hk]
    exact Or.inl rfl

/-- Each blocked job is counted up once at most, and only if the request overlaps. -/
theorem backfills_overtaken (r : Request) {blocked : List (Id × Shortages)}
    (hn : (blocked.map (·.1)).Nodup) (db : Db) (k : Id) :
    backfills (blocked.foldl (countBackfill r) db) k = backfills db k ∨
      ∃ short, (k, short) ∈ blocked ∧ overlaps r short = true ∧
        backfills (blocked.foldl (countBackfill r) db) k = backfills db k + 1 := by
  induction blocked generalizing db with
  | nil => exact Or.inl rfl
  | cons older blocked ih =>
    rw [List.map_cons, List.nodup_cons] at hn
    rw [List.foldl_cons]
    have hrest := ih hn.2 (countBackfill r db older)
    have hfirst : backfills (countBackfill r db older) k = backfills db k ∨ k = older.1 ∧
        overlaps r older.2 = true ∧
        backfills (countBackfill r db older) k = backfills db k + 1 := by
      unfold countBackfill
      by_cases ho : overlaps r older.2 = true
      · rw [if_pos ho]
        rcases backfills_overtakenJob db older.1 k with h | ⟨hk, h⟩
        · exact Or.inl h
        · exact Or.inr ⟨hk, ho, h⟩
      · rw [if_neg ho]
        exact Or.inl rfl
    rcases hfirst with hsame | ⟨hk, ho, hup⟩
    · rw [hsame] at hrest
      rcases hrest with h | ⟨short, hin, hov, h⟩
      · exact Or.inl h
      · exact Or.inr ⟨short, List.mem_cons_of_mem older hin, hov, h⟩
    · -- The job is not among the others, so it is not counted again.
      rcases hrest with h | ⟨short, hin, -, -⟩
      · exact Or.inr ⟨older.2, by simp [hk], ho, h.trans hup⟩
      · exact absurd (List.mem_map.mpr ⟨(k, short), hin, hk⟩) hn.1

theorem bounded_rows (hk : Table.Keyed (·.id) db.jobs) (h : ∀ id, backfills db id ≤ maxBackfills) :
    ∀ j ∈ db.jobs, j.backfillCount ≤ maxBackfills := by
  intro j hj
  have hb := h j.id
  unfold backfills at hb
  rw [hk.get_eq hj] at hb
  exact hb

theorem bounded_counts (h : ∀ j ∈ db.jobs, j.backfillCount ≤ maxBackfills) (id : Id) :
    backfills db id ≤ maxBackfills := by
  unfold backfills
  cases hj : Table.get (·.id) id db.jobs with
  | none => exact Nat.zero_le _
  | some j => exact h j (Table.get_mem hj).1

end

/-! ### The loop over the queue -/

/-- The invariant of `sweep`: the turns `past` are over and `jobs` are left. -/
structure Queue (past : List Turn) (jobs : List Job) (p : Pass) : Prop where
  keyed : Table.Keyed (·.id) p.db.jobs
  bounded : ∀ id, backfills p.db id ≤ maxBackfills
  blocked : p.blocked = past.filterMap fun t => t.short.map fun short => (t.job.id, short)
  order : (past.map (·.job) ++ jobs).Pairwise Older

section
variable {s : Scheduler} {now : Time} {past : List Turn} {job : Job} {jobs : List Job} {p p' : Pass}

theorem Queue.younger (h : Queue past (job :: jobs) p) : ∀ o ∈ past, Older o.job job := by
  intro o ho
  exact (List.pairwise_append.mp h.order).2.2 o.job (List.mem_map.mpr ⟨o, ho, rfl⟩) job
    List.mem_cons_self

/-- The blocked jobs of a pass are distinct. -/
theorem Queue.blocked_nodup (h : Queue past jobs p) : (p.blocked.map (·.1)).Nodup := by
  have hpast := (List.pairwise_append.mp h.order).1
  rw [List.pairwise_map] at hpast
  rw [h.blocked, List.Nodup, List.pairwise_map, List.pairwise_filterMap]
  refine hpast.imp fun {a b} ho x hx y hy => ?_
  obtain ⟨short, -, rfl⟩ := Option.map_eq_some_iff.mp hx
  obtain ⟨short', -, rfl⟩ := Option.map_eq_some_iff.mp hy
  exact ho.2

theorem Queue.mem_blocked (h : Queue past jobs p) {k : Id} {short : Shortages} :
    (k, short) ∈ p.blocked ↔ ∃ o ∈ past, o.short = some short ∧ o.job.id = k := by
  rw [h.blocked, List.mem_filterMap]
  simp

/-- The next job of the queue, once a turn is over. -/
theorem Queue.next {t : Turn} (h : Queue past (t.job :: jobs) p)
    (hkeyed : Table.Keyed (·.id) p'.db.jobs) (hbounded : ∀ id, backfills p'.db id ≤ maxBackfills)
    (hblocked : p'.blocked = p.blocked ++ (t.short.map fun short => (t.job.id, short)).toList) :
    Queue (past ++ [t]) jobs p' where
  keyed := hkeyed
  bounded := hbounded
  blocked := by
    rw [hblocked, h.blocked, List.filterMap_append]
    cases ht : t.short <;> simp [ht]
  order := by
    rw [List.map_append, List.append_assoc]
    exact h.order

/-- A turn that admits nothing raises no count. -/
theorem Queue.quiet {t : Turn} (h : Queue past (t.job :: jobs) p) (hbefore : t.before = p.db)
    (hafter : t.after = p'.db) (hnone : t.admits = none) (hkeyed : Table.Keyed (·.id) p'.db.jobs)
    (hcounts : ∀ id, backfills p'.db id ≤ backfills p.db id)
    (hblocked : p'.blocked = p.blocked ++ (t.short.map fun short => (t.job.id, short)).toList) :
    FairTurn past t ∧ Queue (past ++ [t]) jobs p' := by
  have hbounded : ∀ id, backfills p'.db id ≤ maxBackfills :=
    fun id => (hcounts id).trans (h.bounded id)
  refine ⟨⟨h.younger, ?_, ?_, ?_⟩, h.next hkeyed hbounded hblocked⟩
  · rw [hafter]
    exact bounded_rows hkeyed hbounded
  · intro id hlt
    rw [hbefore, hafter] at hlt
    have hle := hcounts id
    omega
  · intro o _ short _ request hr
    rw [hnone] at hr
    cases hr

/-- The turn of a job that is admitted. -/
theorem Queue.admits {planned : Planned} {assigned : String → List String}
    (h : Queue past (job :: jobs) p) (hfree : protectedBy p planned.request = false)
    (hs : admitJob s now p job planned assigned = .ok p') :
    FairTurn past ⟨job, .admits planned assigned, p.db, p'.db⟩ ∧
      Queue (past ++ [⟨job, .admits planned assigned, p.db, p'.db⟩]) jobs p' := by
  obtain ⟨attempt, new, rows, db, item, hb⟩ := admitJob_ok hs
  obtain ⟨projects, resources, hdb⟩ := hb.gang.rest
  have hjobs : db.jobs = (updateJob p.db job.id (admittedJob now)).jobs := by
    rw [hdb]
    rfl
  have hold : ∀ k, backfills db k ≤ backfills p.db k := by
    intro k
    unfold backfills
    rw [hjobs]
    exact backfills_updateJob (f := admittedJob now) (fun j => rfl) (fun j => Nat.zero_le _) p.db
      job.id k
  have hnew : ∀ k, backfills p'.db k = backfills db k ∨ ∃ short, (k, short) ∈ p.blocked ∧
      overlaps planned.request short = true ∧ backfills p'.db k = backfills db k + 1 := by
    intro k
    have hc := backfills_overtaken planned.request h.blocked_nodup db k
    rw [countBackfills_eq] at hc
    rw [hb.stored]
    exact hc
  -- A blocked job that is counted up had been overtaken less often than the limit.
  have hroom : ∀ k short, (k, short) ∈ p.blocked → overlaps planned.request short = true →
      backfills p.db k < maxBackfills := by
    intro k short hin hov
    by_contra hge
    have hp : protectedBy p planned.request = true :=
      List.any_eq_true.mpr ⟨(k, short), hin, by simp [hov, Nat.le_of_not_lt hge]⟩
    rw [hfree] at hp
    cases hp
  have hkeyed : Table.Keyed (·.id) p'.db.jobs := by
    rw [hb.stored]
    refine keyed_overtaken _ _ ?_
    rw [hjobs]
    exact keyed_updateJob (f := admittedJob now) (fun j => rfl) h.keyed job.id
  have hbounded : ∀ k, backfills p'.db k ≤ maxBackfills := by
    intro k
    have ho := hold k
    have hk := h.bounded k
    rcases hnew k with he | ⟨short, hin, hov, he⟩
    · omega
    · have hlt := hroom k short hin hov
      omega
  refine ⟨⟨h.younger, bounded_rows hkeyed hbounded, ?_, ?_⟩, h.next hkeyed hbounded ?_⟩
  · intro k hlt
    have ho := hold k
    rcases hnew k with he | ⟨short, hin, -, he⟩
    · simp only at hlt
      omega
    · obtain ⟨o, hin', hshort, hid⟩ := h.mem_blocked.mp hin
      refine ⟨?_, rfl, o, hin', hid, by rw [hshort]; rfl⟩
      simp only at hlt ⊢
      omega
  · intro o hin short hshort request hr hge
    have hin' : (o.job.id, short) ∈ p.blocked := h.mem_blocked.mpr ⟨o, hin, hshort, rfl⟩
    have hr' : planned.request = request := Option.some.inj hr
    subst hr'
    by_contra hov
    have hlt := hroom o.job.id short hin' (Bool.not_eq_false _ ▸ hov)
    simp only at hge
    omega
  · rw [hb.blocked]
    simp [Turn.short]

/-- **One turn is fair,** and the queue goes on. -/
theorem Queue.turn {verdict : Verdict} (h : Queue past (job :: jobs) p)
    (hv : evaluate s now p job = .ok verdict) (hs : settle s now p job verdict = .ok p') :
    FairTurn past ⟨job, verdict, p.db, p'.db⟩ ∧
      Queue (past ++ [⟨job, verdict, p.db, p'.db⟩]) jobs p' := by
  cases verdict with
  | waits reason =>
    rw [settle, pure_ok] at hs
    subst hs
    exact h.quiet rfl rfl rfl (keyed_updateJob (waitingJob_id reason) h.keyed job.id)
      (backfills_updateJob (waitingJob_id reason) (waitingJob_count reason) p.db job.id)
        (by simp [Turn.short])
  | blocked short =>
    rw [settle, pure_ok] at hs
    subst hs
    exact h.quiet rfl rfl rfl (keyed_updateJob (waitingJob_id _) h.keyed job.id)
      (backfills_updateJob (waitingJob_id _) (waitingJob_count _) p.db job.id)
        (by simp [Turn.short])
  | expired =>
    obtain ⟨item, -, rfl⟩ := expire_ok hs
    refine h.quiet rfl rfl rfl ?_ ?_ (by simp [Turn.short])
    · exact keyed_updateJob (f := expiredJob) (fun j => rfl) h.keyed job.id
    · exact backfills_updateJob (f := expiredJob) (fun j => rfl) (fun j => le_refl _) p.db job.id
  | admits planned assigned =>
    exact h.admits (evaluate_admits hv) hs

/-- The admissions of a turn. -/
theorem settle_admitted {verdict : Verdict} (hs : settle s now p job verdict = .ok p')
    (before after : Db) :
    p'.admitted.map (·.jobId) = p.admitted.map (·.jobId) ++
      (([⟨job, verdict, before, after⟩] : List Turn).filter (·.admits.isSome)).map (·.job.id) := by
  cases verdict with
  | waits reason | blocked short =>
    rw [settle, pure_ok] at hs
    subst hs
    simp [Turn.admits]
  | expired =>
    obtain ⟨item, -, rfl⟩ := expire_ok hs
    simp [Turn.admits]
  | admits planned assigned =>
    obtain ⟨attempt, new, rows, db, item, hb⟩ := admitJob_ok hs
    rw [hb.admitted]
    simp [Turn.admits]

/-- What a whole sweep does, from the turns that are over. -/
theorem sweep_fair {limit : Nat} (h : Queue past jobs p) (hs : sweep s limit now jobs p = .ok p') :
    Linked p.db (turns s limit now jobs p) p'.db ∧
      p'.admitted.map (·.jobId) = p.admitted.map (·.jobId) ++
        ((turns s limit now jobs p).filter (·.admits.isSome)).map (·.job.id) ∧
      (∀ pre t rest, turns s limit now jobs p = pre ++ t :: rest → FairTurn (past ++ pre) t) ∧
      ∃ past', Queue past' [] p' := by
  induction jobs generalizing past p with
  | nil =>
    rw [sweep, pure_ok] at hs
    subst hs
    exact ⟨rfl, by simp [turns], by simp [turns], past, h⟩
  | cons job jobs ih =>
    rw [sweep] at hs
    by_cases hl : limit ≤ p.admitted.length
    · rw [if_pos hl, pure_ok] at hs
      subst hs
      have hq : Queue past [] p :=
        ⟨h.keyed, h.bounded, h.blocked, by simpa using (List.pairwise_append.mp h.order).1⟩
      simp only [turns, if_pos hl]
      exact ⟨rfl, by simp, by simp, past, hq⟩
    · rw [if_neg hl] at hs
      simp only [bind_ok] at hs
      obtain ⟨verdict, hv, m, hm, hs⟩ := hs
      obtain ⟨hfair, hnext⟩ := h.turn hv hm
      obtain ⟨hlinked, hadmitted, hrest, hend⟩ := ih hnext hs
      have hturns : turns s limit now (job :: jobs) p = ⟨job, verdict, p.db, m.db⟩ ::
          turns s limit now jobs m := by
        simp only [turns, if_neg hl, hv, hm]
      rw [hturns]
      refine ⟨⟨rfl, hlinked⟩, ?_, ?_, hend⟩
      · rw [hadmitted, settle_admitted hm p.db m.db, List.append_assoc, ← List.map_append,
          ← List.filter_append]
        rfl
      · intro pre t rest he
        cases pre with
        | nil =>
          rw [List.nil_append, List.cons.injEq] at he
          rw [List.append_nil, ← he.1]
          exact hfair
        | cons first pre =>
          rw [List.cons_append, List.cons.injEq] at he
          have ht := hrest pre t rest he.2
          rwa [List.append_assoc, he.1] at ht

end

/-! ### A pass -/

variable {db : Db}

theorem start_ok {d : Dialect} {p : Pass} (h : start d db = .ok p) :
    p.db = db ∧ p.blocked = [] ∧ p.admitted = [] := by
  simp only [start, block_ok] at h
  obtain ⟨p₁, h₁, p₂, h₂, rfl⟩ := h
  have hfirst : p₁.db = db ∧ p₁.blocked = [] ∧ p₁.admitted = [] := by
    refine foldlM_ok (fun q : Pass => q.db = db ∧ q.blocked = [] ∧ q.admitted = []) _ ?_
      ⟨rfl, rfl, rfl⟩ h₁
    intro q a _ q' hq ha
    unfold account at ha
    split at ha
    · cases ha
    · simp only [block_ok] at ha
      obtain ⟨used, -, projectUsed, -, rfl⟩ := ha
      exact hq
  have hsecond : p₂.db = db ∧ p₂.blocked = [] ∧ p₂.admitted = [] := by
    refine foldlM_ok (fun q : Pass => q.db = db ∧ q.blocked = [] ∧ q.admitted = []) _ ?_ hfirst h₂
    intro q pool _ q' hq hp
    simp only [accountDisk, block_ok] at hp
    obtain ⟨n, -, rfl⟩ := hp
    exact hq
  exact hsecond

theorem before_iff {a b : Job} :
    Job.before a b = true ↔ a.createdAt < b.createdAt ∨ a.createdAt = b.createdAt ∧
      a.id ≤ b.id := by
  unfold Job.before
  by_cases h : a.createdAt = b.createdAt <;> simp [h]

/-- The queue is in the order of submission. -/
theorem queued_order (h : Table.Keyed (·.id) db.jobs) : (queued db).Pairwise Older := by
  have htotal : Std.Total fun a b : Job => Job.before a b = true := ⟨by
    intro a b
    show Job.before a b = true ∨ Job.before b a = true
    rw [before_iff, before_iff]
    rcases Int.lt_trichotomy a.createdAt b.createdAt with h | h | h
    · exact Or.inl (Or.inl h)
    · exact (Nat.le_total a.id b.id).imp (fun hid => Or.inr ⟨h, hid⟩)
        (fun hid => Or.inr ⟨h.symm, hid⟩)
    · exact Or.inr (Or.inl h)⟩
  have htrans : IsTrans Job fun a b => Job.before a b = true := ⟨by
    intro a b c
    show Job.before a b = true → Job.before b c = true → Job.before a c = true
    rw [before_iff, before_iff, before_iff]
    rintro (hab | ⟨hab, hid⟩) (hbc | ⟨hbc, hid'⟩)
    · exact Or.inl (Int.lt_trans hab hbc)
    · exact Or.inl (hbc ▸ hab)
    · exact Or.inl (hab ▸ hbc)
    · exact Or.inr ⟨hab.trans hbc, Nat.le_trans hid hid'⟩⟩
  have hsorted := List.pairwise_insertionSort (fun a b : Job => Job.before a b = true)
    (db.jobs.filter fun j => j.state == .queued)
  have hids : ((queued db).map (·.id)).Nodup := by
    refine ((List.perm_insertionSort _ _).map _).nodup_iff.mpr ?_
    exact (List.filter_sublist.map _).nodup h
  exact hsorted.and (List.pairwise_map.mp hids)

/-- **A pass is fair,** and leaves every count within the limit. -/
theorem schedule_fair {s : Scheduler} {limit : Nat} {now : Time} {db' : Db}
    {admitted : List Admission} (hk : Table.Keyed (·.id) db.jobs)
    (hb : ∀ j ∈ db.jobs, j.backfillCount ≤ maxBackfills)
    (h : schedule s limit now db = .ok (admitted, db')) :
    FairPass db db' admitted (passTurns s limit now db) ∧ Table.Keyed (·.id) db'.jobs ∧
      ∀ j ∈ db'.jobs, j.backfillCount ≤ maxBackfills := by
  unfold schedule at h
  split at h
  · cases h
  simp only [block_ok] at h
  obtain ⟨p, hp, p', hs, rfl, rfl⟩ := h
  obtain ⟨rfl, hblocked, hadmitted⟩ := start_ok hp
  have hq : Queue [] (queued p.db) p :=
    ⟨hk, bounded_counts hb, by simp [hblocked], by simpa using queued_order hk⟩
  obtain ⟨hlinked, hadm, hfair, past, hend⟩ := sweep_fair hq hs
  have hturns : passTurns s limit now p.db = turns s limit now (queued p.db) p := by
    rw [passTurns, hp]
  rw [hturns]
  refine ⟨⟨hlinked, ?_, fun past t rest he => by simpa using hfair past t rest he⟩, hend.keyed,
    bounded_rows hend.keyed hend.bounded⟩
  rw [hadm, hadmitted]
  rfl

/-! ### Histories -/

/-- Anything that happens between two passes: rows come, go and change, but a
`backfill_count` is left alone or set to 0. -/
structure Change where
  apply : Db → Db
  keyed : ∀ db, Table.Keyed (·.id) db.jobs → Table.Keyed (·.id) (apply db).jobs
  counts : ∀ db, ∀ j ∈ (apply db).jobs,
    j.backfillCount = 0 ∨ ∃ i ∈ db.jobs, i.id = j.id ∧ i.backfillCount = j.backfillCount

/-- `CreateJob`: the job is queued, with its first attempt. -/
def Change.createJob (projectId : String) (spec : JobSpec) (now : Time) : Change where
  apply db := { db with
    jobs := db.jobs ++ [{
      id := Table.fresh (·.id) db.jobs
      projectId, spec
      phase := some .waitingResources
      queueReason := some .awaitingScheduler
      currentAttempt := 1
      createdAt := now }]
    attempts := db.attempts ++ [{
      id := Table.fresh (·.id) db.attempts
      jobId := Table.fresh (·.id) db.jobs
      number := 1
      epoch := 1
      state := .queued }] }
  keyed db h := h.concat fun x hx => (Table.lt_fresh hx).ne
  counts db j hj := by
    rcases Table.mem_concat.mp hj with hj | rfl
    · exact Or.inr ⟨j, hj, rfl, rfl⟩
    · exact Or.inl rfl

/-- The row of a job that `terminalTx` has ended. A job that is over stays as it is. -/
def endedJob (state : JobState) (expires : Time) (j : Job) : Job :=
  if j.state.terminal || (j.state == .cancelling && state == .succeeded) || !state.terminal then j
  else { j with
    state := state
    phase := some .finished
    backfillCount := 0
    artifactsExpireAt := some expires
    cleanupStatus := .pending
    version := j.version + 1 }

/-- `terminalTx`, on the row of the job. -/
def Change.terminalTx (id : Id) (state : JobState) (expires : Time) : Change where
  apply db := updateJob db id (endedJob state expires)
  keyed db h := keyed_updateJob (fun j => by unfold endedJob; split <;> rfl) h id
  counts db j hj := by
    rcases Table.mem_modify.mp hj with ⟨hj, -⟩ | ⟨i, hi, -, rfl⟩
    · exact Or.inr ⟨j, hj, rfl, rfl⟩
    · unfold endedJob
      split
      · exact Or.inr ⟨i, hi, rfl, rfl⟩
      · exact Or.inl rfl

/-- Pools and projects are set up anew. -/
def Change.setUp (pools : List Pool) (projects : List Project) : Change where
  apply db := { db with pools, projects }
  keyed _ h := h
  counts _ j hj := Or.inr ⟨j, hj, rfl, rfl⟩

inductive Event where
  | pass (s : Scheduler) (limit : Nat) (now : Time)
  | change (c : Change)

/-- A pass that aborts is rolled back. -/
def history (db : Db) : Event → Db
  | .pass s limit now =>
    match schedule s limit now db with
    | .ok (_, db') => db'
    | .error _ => db
  | .change c => c.apply db

/-- The pass is fair, if the event is one. -/
def FairEvent (db : Db) : Event → Prop
  | .pass s limit now => ∀ admitted db', schedule s limit now db = .ok (admitted, db') →
      FairPass db db' admitted (passTurns s limit now db)
  | .change _ => True

/-- What every event of a history keeps. -/
structure Tallied (db : Db) : Prop where
  keyed : Table.Keyed (·.id) db.jobs
  bounded : ∀ j ∈ db.jobs, j.backfillCount ≤ maxBackfills

theorem Tallied.next (h : Tallied db) (e : Event) : Tallied (history db e) := by
  cases e with
  | pass s limit now =>
    cases hs : schedule s limit now db with
    | error e =>
      simp only [history, hs]
      exact h
    | ok r =>
      obtain ⟨-, hk, hb⟩ := schedule_fair h.keyed h.bounded hs
      simp only [history, hs]
      exact ⟨hk, hb⟩
  | change c =>
    refine ⟨c.keyed db h.keyed, fun j hj => ?_⟩
    rcases c.counts db j hj with hz | ⟨i, hi, -, he⟩
    · omega
    · have hle := h.bounded i hi
      omega

/-- **Backfill is fair.** In every history of passes and other changes no count is ever above
the limit, and every pass is fair. -/
theorem backfill_fair (run : List Event) :
    Run.Always history (fun db => ∀ j ∈ db.jobs, j.backfillCount ≤ maxBackfills) {} run ∧
      Run.Every history FairEvent {} run := by
  have hfirst : Tallied {} := ⟨by simp [Table.Keyed], by simp⟩
  constructor
  · exact Run.always_of_invariant (J := Tallied) (fun db e h => Tallied.next h e)
      (fun db h => h.bounded) hfirst run
  · refine Run.every_of_invariant (J := Tallied) (fun db e h => Tallied.next h e)
      (fun db e h => ?_) hfirst run
    cases e with
    | pass s limit now =>
      intro admitted db' hs
      exact (schedule_fair h.keyed h.bounded hs).1
    | change c => trivial

/-- A scheduler without storage plans. -/
def plainScheduler : Scheduler where
  dialect := .go
  planner _ _ := .ok []
  letterOrNumber _ := true
  externalComponent id := id

/-- A job of one component that asks for processors only. -/
def cpuJob (millicores : Nat) : JobSpec where
  components := [⟨"c", .owner,
    { poolId := "p", cpuMillicores := millicores, memoryBytes := 0, diskBytes := 0 }⟩]
  targetRound := 1
  maxDurationSeconds := 60
  digest := ""
  distinct := List.nodup_singleton _

/-- A pool with ten thousandths of a processor. -/
def cpuPool : Pool where
  id := "p"
  nodeId := "n"
  cpuMillicores := 10
  memoryBytes := 0
  diskBytes := 0
  sandboxProfiles := ["runsc-cpu-v1"]
  healthy := true

/-- A job that asks for more than the pool has is overtaken, and then cancelled. -/
def overtaking : List Event := [
  .change (.setUp [cpuPool] [{ id := "x" }]),
  .change (.createJob "x" (cpuJob 20) 0),
  .change (.createJob "x" (cpuJob 2) 1),
  .pass plainScheduler 5 2,
  .change (.terminalTx 1 .cancelled 3)]

/-- The younger job is admitted, and the count of the older one is 1 until it ends. -/
theorem backfill_fair_overtaking :
    ((overtaking.take 4).foldl history {}).jobs.map (fun j => (j.state, j.backfillCount)) =
      [(.queued, 1), (.provisioning, 0)] ∧
    (overtaking.foldl history {}).jobs.map (fun j => (j.state, j.backfillCount)) =
      [(.cancelled, 0), (.provisioning, 0)] ∧
    Run.Every history FairEvent {} overtaking :=
  ⟨by decide +kernel, by decide +kernel, (backfill_fair overtaking).2⟩

end Hf2l.Jobs.Scheduler
