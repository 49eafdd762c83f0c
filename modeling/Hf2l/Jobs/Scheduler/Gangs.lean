import Hf2l.Jobs.Scheduler.Fairness

/-!
# `Hf2l.Jobs.Scheduler.Gangs`: a job is admitted whole or not at all

What a pass leaves in the database. A job that it admits has an allocation for each component, under
one attempt and a new epoch, and one dispatch. Nothing else gets allocations, devices or a
dispatch. -/

set_option autoImplicit false

namespace Hf2l.Jobs.Scheduler

open Lib Lib.Checked

/-- The allocations of an admission are those of all components of the job. -/
structure Whole (job : Job) (gang : List Allocation) (m : Admission) : Prop where
  jobId : m.jobId = job.id
  epoch : m.epoch = job.epoch + 1
  ids : gang.map (·.id) = m.allocationIds
  components : gang.map (·.componentId) = job.spec.components.map (·.componentId)
  row : ∀ a ∈ gang, a.jobId = job.id ∧ a.attemptId = m.attemptId ∧ a.epoch = m.epoch ∧
    a.state = .reserved ∧ a.releasedAt = none ∧ a.terminationConfirmed = false

/-- What the turns of `jobs` have added to `db`. -/
structure Gangs (db db' : Db) (jobs : List Job) (admitted : List Admission) : Prop where
  allocations : ∃ gangs : List (Job × List Allocation), db'.allocations = db.allocations ++
    gangs.flatMap (·.2) ∧ (gangs.map (·.1)).Sublist jobs ∧
    List.Forall₂ (fun g m => Whole g.1 g.2 m) gangs admitted
  devices : ∃ rows, db'.gpus = db.gpus ++ rows ∧
    ∀ g ∈ rows, g.releasedAt = none ∧ ∃ m ∈ admitted, g.allocationId ∈ m.allocationIds
  outbox : ∃ items, db'.outbox = db.outbox ++ items ∧
    (items.filter (·.topic = .dispatch)).map (fun i => (i.jobId, i.attemptId, i.payload.epoch)) =
      admitted.map fun m => (m.jobId, some m.attemptId, some m.epoch)

section
variable {s : Scheduler} {now : Time} {db : Db} {p p' : Pass} {jobs done : List Job} {job : Job}

theorem Gangs.mono {db' : Db} {admitted : List Admission} (h : Gangs db db' done admitted)
    (hsub : done.Sublist jobs) :
    Gangs db db' jobs admitted := by
  obtain ⟨gangs, hdb, hdone, hwhole⟩ := h.allocations
  exact ⟨⟨gangs, hdb, hdone.trans hsub, hwhole⟩, h.devices, h.outbox⟩

theorem Gangs.admits {planned : Planned} {assigned : String → List String}
    (h : Gangs db p.db done p.admitted) (hs : admitJob s now p job planned assigned = .ok p') :
    Gangs db p'.db (done ++ [job]) p'.admitted := by
  obtain ⟨attempt, new, rows, mid, item, hb⟩ := admitJob_ok hs
  obtain ⟨projects, resources, rfl⟩ := hb.gang.rest
  rw [hb.admitted, hb.stored]
  simp only [admittedDb, updateAttempt, updateJob]
  refine ⟨?_, ?_, ?_⟩
  · obtain ⟨gangs, hdb, hdone, hwhole⟩ := h.allocations
    refine ⟨gangs ++ [(job, new)], ?_, ?_, ?_⟩
    · simp [hdb]
    · rw [List.map_append]
      exact hdone.append (List.Sublist.refl _)
    · exact List.rel_append hwhole (.cons ⟨rfl, rfl, rfl, hb.whole, hb.gang.row⟩ .nil)
  · obtain ⟨old, hdb, hold⟩ := h.devices
    refine ⟨old ++ rows, by simp [hdb], fun g hg => ?_⟩
    rcases List.mem_append.mp hg with hg | hg
    · obtain ⟨hr, m, hm, hid⟩ := hold g hg
      exact ⟨hr, m, List.mem_append_left _ hm, hid⟩
    · obtain ⟨hr, a, ha, hid⟩ := hb.gang.devices g hg
      exact ⟨hr, _, List.mem_append_right _ (List.mem_singleton_self _),
        hid ▸ List.mem_map_of_mem ha⟩
  · obtain ⟨items, hdb, hitems⟩ := h.outbox
    refine ⟨items ++ [item], by simp [hdb], ?_⟩
    have hi := hb.announced
    simp [List.filter_append, hitems, hi.topic, hi.jobId, hi.attemptId, hi.payload]

/-- One turn adds a whole gang, or none. -/
theorem Gangs.turn {verdict : Verdict} (h : Gangs db p.db done p.admitted)
    (hs : settle s now p job verdict = .ok p') : Gangs db p'.db (done ++ [job]) p'.admitted := by
  have hmore := h.mono (List.sublist_append_left done [job])
  cases verdict with
  | waits reason | blocked short =>
    rw [settle, pure_ok] at hs
    subst hs
    exact ⟨hmore.allocations, h.devices, h.outbox⟩
  | expired =>
    obtain ⟨item, hi, rfl⟩ := expire_ok hs
    obtain ⟨items, hdb, hitems⟩ := h.outbox
    refine ⟨hmore.allocations, h.devices, items ++ [item], by simp [hdb], ?_⟩
    simp [List.filter_append, hitems, hi.topic]
  | admits planned assigned => exact h.admits hs

theorem sweep_gangs {limit : Nat} (h : Gangs db p.db done p.admitted)
    (hs : sweep s limit now jobs p = .ok p') :
    Gangs db p'.db (done ++ jobs) p'.admitted := by
  induction jobs generalizing done p with
  | nil =>
    rw [sweep, pure_ok] at hs
    subst hs
    exact h.mono (List.sublist_append_left _ _)
  | cons job jobs ih =>
    rw [sweep] at hs
    split at hs
    · rw [pure_ok] at hs
      subst hs
      exact h.mono (List.sublist_append_left _ _)
    · simp only [bind_ok] at hs
      obtain ⟨verdict, -, m, hm, hs⟩ := hs
      rw [List.append_cons]
      exact ih (h.turn hm) hs

end

/-- **A pass admits whole gangs,** each for another job of the queue, and adds nothing else. -/
theorem gangs_admitted_whole (s : Scheduler) (limit : Nat) (now : Time) (db : Db) :
    match schedule s limit now db with
    | .ok (admitted, db') => Gangs db db' (queued db) admitted
    | .error _ => True := by
  split
  · rename_i admitted db' h
    unfold schedule at h
    split at h
    · cases h
    simp only [block_ok] at h
    obtain ⟨p, hp, p', hs, rfl, rfl⟩ := h
    obtain ⟨rfl, -, hadmitted⟩ := start_ok hp
    have hstart : Gangs p.db p.db [] p.admitted := by
      rw [hadmitted]
      exact ⟨⟨[], by simp, .slnil, .nil⟩, ⟨[], by simp, nofun⟩, [], by simp, rfl⟩
    exact sweep_gangs hstart hs
  · trivial

end Hf2l.Jobs.Scheduler
