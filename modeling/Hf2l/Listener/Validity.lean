import Hf2l.Lib.Checked
import Hf2l.Listener.Engine

/-!
# `Hf2l.Listener.Validity`: states that can be reopened

`Valid` is what the engine keeps of its document, in the document's own terms. `validateState`
accepts the file of a valid document (`validateState_toJson`). The writes of the engine keep a
document valid: a change of the active job, the end of it, and a new job.

`Valid` asks more of rounds than the file does: a job without a round must be one that may be
skipped without it, as the next poll can skip any job that is not published.
-/

set_option autoImplicit false

namespace Hf2l.Listener

open Lib Lib.Json Lib.Checked

/-- What the checks of `_validate_state` say. -/
structure Valid (config : Config) (s : Saved) : Prop where
  identity : s.identity = config.identity
  keyed : Table.Keyed (·.revision) s.jobs
  named : ∀ j ∈ s.jobs, j.revision ≠ ""
  statuses : ∀ j ∈ s.jobs, j.status ∈ config.role.statuses
  rounds : ∀ j ∈ s.jobs, j.sourceRound = none →
    j.status ∈ config.role.roundOptional ∧ Status.skipped ∈ config.role.roundOptional
  done : ∀ j ∈ s.jobs, j.status = config.role.success → ∀ n, j.sourceRound = some n →
    (n : Int) ≤ s.completedRound
  completed : -1 ≤ s.completedRound
  active : ∀ j ∈ s.jobs, j.status ∉ config.role.terminal ↔ s.active = some j.revision
  present : ∀ a, s.active = some a → ∃ j ∈ s.jobs, j.revision = a

/-! ### Reopening -/

theorem Status.text_inj {s t : Status} : s.text = t.text ↔ s = t := by
  constructor
  · intro h
    cases s <;> cases t <;> first | rfl | (exact absurd h (by decide))
  · exact congrArg Status.text

theorem text_mem_iff {s : Status} {l : List Status} : s.text ∈ l.map (·.text) ↔ s ∈ l := by
  simp [List.mem_map, Status.text_inj]

section
variable {config : Config} {s : Saved}

@[simp] theorem lookup_revision (j : Job) : j.fields.lookup "revision" = some (.str j.revision) :=
  rfl

@[simp] theorem lookup_status (j : Job) : j.fields.lookup "status" = some (.str j.status.text) :=
  rfl

@[simp] theorem readRound_fields (j : Job) : readRound j.fields = .ok j.sourceRound := by
  have hlookup : j.fields.lookup "source_round" =
      some (j.sourceRound.elim .null fun (n : Nat) => .int n) := by
    obtain ⟨_, sourceRound, _⟩ := j
    cases sourceRound <;> rfl
  unfold readRound
  rw [hlookup]
  cases j.sourceRound <;> rfl

/-- The checks on one job of a valid document pass. -/
theorem validateJob_toJson (h : Valid config s) {j : Job} (hj : j ∈ s.jobs)
    (nonterminal : List String) :
    validateJob config.role s.completedRound nonterminal (j.revision, j.toJson) =
      .ok (if j.status ∉ config.role.terminal then nonterminal ++ [j.revision]
        else nonterminal) := by
  have hnamed : ¬ (j.revision = "" ∨ j.revision ≠ j.revision ∨
      j.status ∉ config.role.statuses) := by
    simp [h.named j hj, h.statuses j hj]
  have hoptional : ¬ (j.sourceRound.isNone = true ∧ j.status ∉ config.role.roundOptional) := by
    rintro ⟨hnone, hnot⟩
    exact hnot (h.rounds j hj (Option.isNone_iff_eq_none.mp hnone)).1
  have hdone : ¬ (j.status = config.role.success ∧
      j.sourceRound.any (fun (n : Nat) => decide (s.completedRound < (n : Int))) = true) := by
    rintro ⟨hsuccess, hlate⟩
    obtain ⟨n, hn, hlt⟩ := (Option.any_eq_true _ _).mp hlate
    exact absurd (of_decide_eq_true hlt) (not_lt.mpr (h.done j hj hsuccess n hn))
  simp only [validateJob, Job.toJson, lookup_revision, lookup_status, readRound_fields,
    text_mem_iff, Status.text_inj]
  rw [if_neg hnamed]
  show (if j.sourceRound.isNone = true ∧ j.status ∉ config.role.roundOptional then _ else _) = _
  rw [if_neg hoptional]
  show (if j.status = config.role.success ∧ _ then _ else _) = _
  rw [if_neg hdone]
  rfl

theorem foldlM_validateJob (h : Valid config s) {jobs : List Job} (hjobs : ∀ j ∈ jobs, j ∈ s.jobs)
    (nonterminal : List String) :
    (jobs.map fun j => (j.revision, j.toJson)).foldlM (validateJob config.role s.completedRound)
      nonterminal = .ok
      (nonterminal ++ (jobs.filter fun j => decide (j.status ∉ config.role.terminal)).map
      (·.revision)) := by
  induction jobs generalizing nonterminal with
  | nil => simp [pure, Except.pure]
  | cons j jobs ih =>
    rw [List.map_cons, List.foldlM_cons, validateJob_toJson h (hjobs j List.mem_cons_self)]
    have hrest := ih (fun x hx => hjobs x (List.mem_cons_of_mem j hx))
    by_cases hterminal : j.status ∈ config.role.terminal <;>
      simp [hterminal, hrest, bind, Except.bind]

/-- The active job is the one that is not done. -/
theorem Valid.nonterminal (h : Valid config s) :
    (s.jobs.filter fun j => decide (j.status ∉ config.role.terminal)).map (·.revision) =
      s.active.toList := by
  have hfilter : (s.jobs.filter fun j => decide (j.status ∉ config.role.terminal)) =
      s.jobs.filter fun j => decide (s.active = some j.revision) :=
    List.filter_congr fun j hj => decide_eq_decide.mpr (h.active j hj)
  rw [hfilter]
  cases ha : s.active with
  | none => simp
  | some a =>
    obtain ⟨j, hj, hrev⟩ := h.present a ha
    have hmem : a ∈ s.jobs.map (·.revision) := List.mem_map.mpr ⟨j, hj, hrev⟩
    have hone : (s.jobs.map (·.revision)).filter (· == a) = [a] := by
      rw [List.filter_beq, List.count_eq_one_of_mem h.keyed hmem]
      rfl
    rw [List.filter_map] at hone
    refine Eq.trans (congrArg (List.map _) (List.filter_congr fun x _ => ?_)) hone
    by_cases hx : a = x.revision
    · simp [hx]
    · simp [hx, Ne.symm hx]

theorem validateAttempt_toJson (j : Job) : validateAttempt (j.revision, j.toJson) = true := by
  have hother : ∀ (v : Option Value) (k : String), ("attempt" == k) = false →
      (optional k v).lookup "attempt" = none := by
    intro v k hk
    cases v with
    | none => rfl
    | some v => simp [optional, List.lookup_cons, hk]
  have hlookup : j.fields.lookup "attempt" = j.attempt.map fun (n : Nat) => .int n := by
    unfold Job.fields
    simp only [List.lookup_append, hother _ "reason" rfl, hother _ "result" rfl,
      hother _ "reconciled" rfl, hother _ "publication_intent" rfl, Option.or_none]
    cases j.attempt <;> rfl
  unfold validateAttempt Job.toJson
  simp only [hlookup]
  cases j.attempt with
  | none => rfl
  | some n => exact decide_eq_true (Int.natCast_nonneg n)

/-- **A valid document can be reopened.** -/
theorem validateState_toJson (h : Valid config s) : validateState config s.toJson = .ok () := by
  have hsame : s.identity.same config.identity = true := by
    rw [h.identity]
    exact (Value.same_iff_norm config.plain config.plain).mpr rfl
  have hfold := foldlM_validateJob h (fun j hj => hj) []
  rw [h.nonterminal, List.nil_append] at hfold
  have hattempts : (s.jobs.map fun j => (j.revision, j.toJson)).all validateAttempt = true := by
    rw [List.all_map, List.all_eq_true]
    exact fun j _ => validateAttempt_toJson j
  have hcompleted : ¬ s.completedRound < -1 := not_lt.mpr h.completed
  unfold validateState Saved.toJson
  simp only [List.lookup_cons, bind, Except.bind, pure, Except.pure, throw, throwThe,
    MonadExceptOf.throw]
  cases ha : s.active with
  | none =>
    rw [ha] at hfold
    simp [hsame, hcompleted, hfold, hattempts]
  | some a =>
    rw [ha] at hfold
    obtain ⟨j, hj, hrev⟩ := h.present a ha
    have hmem : ∃ x ∈ s.jobs, x.revision = a := ⟨j, hj, hrev⟩
    simp [hsame, hcompleted, hfold, hattempts, hmem]

/-! ### The writes of the engine -/

theorem getJob_modifyJob {revision : String} {f : Job → Job} (hf : ∀ j, (f j).revision = j.revision)
    (b : String) :
    getJob (modifyJob revision f s) b = if b = revision then
      (getJob s revision).map f else getJob s b :=
  Table.get_modify (fun j hj => (hf j).trans hj) b s.jobs

variable {a : String}

/-- The active job, found. -/
theorem Valid.get_active (h : Valid config s) (ha : s.active = some a) :
    ∃ j, getJob s a = some j ∧ j ∈ s.jobs ∧ j.revision = a ∧ j.status ∉ config.role.terminal := by
  obtain ⟨j, hj, hrev⟩ := h.present a ha
  refine ⟨j, ?_, hj, hrev, (h.active j hj).mpr (hrev ▸ ha)⟩
  rw [← hrev]
  exact h.keyed.get_eq hj

/-- Another job than the active one is done. -/
theorem Valid.other_terminal (h : Valid config s) (ha : s.active = some a) {j : Job}
    (hj : j ∈ s.jobs) (hne : j.revision ≠ a) : j.status ∈ config.role.terminal := by
  by_contra hnot
  have := (h.active j hj).mp hnot
  rw [ha] at this
  exact hne (Option.some.inj this).symm

/-- A change of the active job, which goes on. -/
theorem Valid.modify (h : Valid config s) (ha : s.active = some a) {f : Job → Job}
    (hf : ∀ j, (f j).revision = j.revision) (hsuccess : config.role.success ∈ config.role.terminal)
    (hjob : ∀ j, getJob s a = some j → (f j).status ∈ config.role.statuses ∧ (f j).status ∉
      config.role.terminal ∧ ((f j).sourceRound = none → (f j).status ∈ config.role.roundOptional ∧
      Status.skipped ∈ config.role.roundOptional)) :
    Valid config (modifyJob a f s) := by
  obtain ⟨active, hget, hmem, hrev, -⟩ := h.get_active ha
  obtain ⟨hstatus, hterminal, hround⟩ := hjob active hget
  -- A job of the new document is an old one that is done, or the active one.
  have hcases : ∀ j ∈ (modifyJob a f s).jobs, (j ∈ s.jobs ∧ j.revision ≠ a) ∨ j = f active := by
    intro j hj
    rcases Table.mem_modify.mp hj with hj | ⟨x, hx, hxa, rfl⟩
    · exact Or.inl hj
    · exact Or.inr (congrArg f (h.keyed.eq_of_key_eq hx hmem (hxa.trans hrev.symm)))
  refine ⟨h.identity, h.keyed.modify fun j hj => (hf j).trans hj, fun j hj => ?_, fun j hj => ?_,
    fun j hj => ?_,
    fun j hj => ?_, h.completed, fun j hj => ?_, fun b hb => ?_⟩
  · rcases hcases j hj with ⟨hj, -⟩ | rfl
    · exact h.named j hj
    · rw [hf]
      exact h.named active hmem
  · rcases hcases j hj with ⟨hj, -⟩ | rfl
    · exact h.statuses j hj
    · exact hstatus
  · rcases hcases j hj with ⟨hj, -⟩ | rfl
    · exact h.rounds j hj
    · exact hround
  · rcases hcases j hj with ⟨hj, -⟩ | rfl
    · exact h.done j hj
    · intro he
      exact absurd (he ▸ hsuccess) hterminal
  · rcases hcases j hj with ⟨hj, -⟩ | rfl
    · exact h.active j hj
    · exact ⟨fun _ => ha.trans (by rw [hf, hrev]), fun _ => hterminal⟩
  · refine ⟨f active, Table.mem_modify.mpr (Or.inr ⟨active, hmem, hrev, rfl⟩), ?_⟩
    rw [hf, hrev]
    exact Option.some.inj (ha.symm.trans hb)

/-- The end of the active job. -/
theorem Valid.finish (h : Valid config s) (ha : s.active = some a) {status : Status}
    {update : Job → Job}
    (hupdate : ∀ j, (update j).revision = j.revision ∧ (update j).sourceRound = j.sourceRound)
    (hstatus : status ∈ config.role.statuses) (hterminal : status ∈ config.role.terminal)
    (hround : roundOf s a = none → status ∈ config.role.roundOptional ∧
      Status.skipped ∈ config.role.roundOptional) :
    Valid config (finishJob config.role a status update s) ∧
      s.completedRound ≤ (finishJob config.role a status update s).completedRound := by
  obtain ⟨active, hget, hmem, hrev, -⟩ := h.get_active ha
  have hf : ∀ j, ({ update j with status := status } : Job).revision = j.revision :=
    fun j => (hupdate j).1
  have hcases : ∀ j ∈ (finishJob config.role a status update s).jobs,
      (j ∈ s.jobs ∧ j.revision ≠ a) ∨ j = { update active with status := status } := by
    intro j hj
    rcases Table.mem_modify.mp hj with hj | ⟨x, hx, hxa, rfl⟩
    · exact Or.inl hj
    · rw [h.keyed.eq_of_key_eq hx hmem (hxa.trans hrev.symm)]
      exact Or.inr rfl
  have hround' : roundOf (modifyJob a (fun j => { update j with status := status }) s) a =
      active.sourceRound := by
    unfold roundOf
    rw [getJob_modifyJob hf, if_pos rfl, hget]
    exact (hupdate active).2
  have hcompleted : (finishJob config.role a status update s).completedRound = if status =
      config.role.success then
        active.sourceRound.elim s.completedRound fun (n : Nat) => max s.completedRound n
      else s.completedRound := by
    unfold finishJob
    simp only [hround']
    cases active.sourceRound <;> rfl
  have hle : s.completedRound ≤ (finishJob config.role a status update s).completedRound := by
    rw [hcompleted]
    split
    · cases active.sourceRound with
      | none => exact le_refl _
      | some n => exact le_max_left _ _
    · exact le_refl _
  refine ⟨⟨h.identity, h.keyed.modify fun j hj => (hf j).trans hj, fun j hj => ?_, fun j hj => ?_,
    fun j hj => ?_,
    fun j hj => ?_, le_trans h.completed hle, fun j hj => ?_, fun b hb => ?_⟩, hle⟩
  · rcases hcases j hj with ⟨hj, -⟩ | rfl
    · exact h.named j hj
    · exact (hf active).symm ▸ h.named active hmem
  · rcases hcases j hj with ⟨hj, -⟩ | rfl
    · exact h.statuses j hj
    · exact hstatus
  · rcases hcases j hj with ⟨hj, -⟩ | rfl
    · exact h.rounds j hj
    · intro hnone
      refine hround ?_
      unfold roundOf
      rw [hget]
      exact (hupdate active).2.symm.trans hnone
  · rcases hcases j hj with ⟨hj, -⟩ | rfl
    · exact fun he n hn => le_trans (h.done j hj he n hn) hle
    · -- The round of the job that succeeded is completed now.
      intro he n hn
      have hn' : active.sourceRound = some n := (hupdate active).2.symm.trans hn
      rw [hcompleted, if_pos he, hn']
      exact le_max_right _ _
  · have hdone : j.status ∈ config.role.terminal := by
      rcases hcases j hj with ⟨hj, hne⟩ | rfl
      · exact h.other_terminal ha hj hne
      · exact hterminal
    exact ⟨fun hnot => absurd hdone hnot, fun hnone => by cases hnone⟩
  · cases hb

theorem getJob_addJob {job : Job} (hnew : getJob s job.revision = none) (b : String) :
    getJob (addJob job s) b = if b = job.revision then some job else getJob s b :=
  Table.get_concat (Table.get_none hnew) b

/-- A new job. -/
theorem Valid.add (h : Valid config s) (ha : s.active = none) (job : Job)
    (hnew : getJob s job.revision = none) (hnamed : job.revision ≠ "")
    (hstatus : job.status ∈ config.role.statuses) (hterminal : job.status ∉ config.role.terminal)
    (hsuccess : config.role.success ∈ config.role.terminal)
    (hround : job.sourceRound = none → job.status ∈ config.role.roundOptional ∧
      Status.skipped ∈ config.role.roundOptional) :
    Valid config (addJob job s) := by
  have hfresh : ∀ x ∈ s.jobs, x.revision ≠ job.revision := Table.get_none hnew
  have hcases : ∀ j ∈ (addJob job s).jobs, j ∈ s.jobs ∨ j = job := fun j hj => by
    rcases List.mem_append.mp hj with hj | hj
    · exact Or.inl hj
    · exact Or.inr (List.mem_singleton.mp hj)
  refine ⟨h.identity, h.keyed.concat hfresh, fun j hj => ?_, fun j hj => ?_, fun j hj => ?_,
    fun j hj => ?_, h.completed,
    fun j hj => ?_,
      fun b hb => ⟨job, List.mem_append_right _ List.mem_cons_self, Option.some.inj hb⟩⟩
  · rcases hcases j hj with hj | rfl
    · exact h.named j hj
    · exact hnamed
  · rcases hcases j hj with hj | rfl
    · exact h.statuses j hj
    · exact hstatus
  · rcases hcases j hj with hj | rfl
    · exact h.rounds j hj
    · exact hround
  · rcases hcases j hj with hj | rfl
    · exact h.done j hj
    · intro he
      exact absurd (he ▸ hsuccess) hterminal
  · rcases hcases j hj with hj | rfl
    · have hdone : ¬ j.status ∉ config.role.terminal := fun hnot => by
        have := (h.active j hj).mp hnot
        rw [ha] at this
        cases this
      exact ⟨fun hnot => absurd hnot hdone,
        fun he => absurd (Option.some.inj he).symm (hfresh j hj)⟩
    · exact ⟨fun _ => rfl, fun _ => hterminal⟩

end

end Hf2l.Listener
