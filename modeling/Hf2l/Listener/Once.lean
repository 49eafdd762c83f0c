import Hf2l.Listener.Fences

/-!
# `Hf2l.Listener.Once`: a listener publishes once

Every method of the two listeners keeps the invariant of `Fences` (`clientPoll_meets`,
`ownerPoll_meets`, `resolve_meets`, `enter_meets`), whatever is answered to its calls, so every
run keeps it. What follows for the history and for the file is `publishes_once`.

One part of it needs a condition. A client makes a job and writes it, and only then it looks
whether the round is completed already. A client that dies in between finds the job in the
file, does not look again, and publishes it (`completed_round_published`).
-/

set_option autoImplicit false

namespace Hf2l.Listener

open Lib Lib.Process

/-- The method keeps the invariant, whatever is answered to its calls. -/
abbrev Keeps {α : Type} (l : Kind) (F : Prop) (x : Method α) (m : Saved) (w : World) : Prop :=
  Task.Meets (Pre l F) effect x (Ends l F) m w

section
variable {l : Kind} {F : Prop} {m : Saved} {w : World} {a : String}

/-! ### Both listeners -/

/-- Which jobs may have no round. -/
theorem Valid.round_none (h : Valid l.config m) (ha : m.active = some a)
    (hnone : roundOf m a = none) :
    ∃ j, getJob m a = some j ∧ j.status ∈ l.config.role.roundOptional ∧
      Status.skipped ∈ l.config.role.roundOptional := by
  obtain ⟨j, hj, hmem, -, -⟩ := h.get_active ha
  unfold roundOf at hnone
  rw [hj] at hnone
  exact ⟨j, hj, h.rounds j hmem hnone⟩

/-- A job with an unknown outcome has a round. -/
theorem Valid.round_of_uncertain (h : Valid l.config m) (ha : m.active = some a) {j : Job}
    (hj : getJob m a = some j) (hs : j.status.isUncertain = true) : roundOf m a ≠ none := by
  intro hnone
  obtain ⟨j', hj', hoptional, -⟩ := h.round_none ha hnone
  rw [hj] at hj'
  cases hj'
  have hnot : ∀ s ∈ l.config.role.roundOptional, s.isUncertain = false := by
    rcases l.role_eq with h | h <;> rw [h] <;> decide
  rw [hnot j.status hoptional] at hs
  cases hs

/-- A valid state has the job it names. -/
theorem Valid.active_none (h : Valid l.config m) (hj : activeJob m = none) : m.active = none := by
  by_contra hsome
  obtain ⟨b, hb⟩ := Option.ne_none_iff_exists'.mp hsome
  obtain ⟨j, hget, -⟩ := h.get_active hb
  simp [activeJob, hb, hget] at hj

/-- The active job is the one that is named. -/
theorem activeJob_eq {j : Job} (hj : activeJob m = some j) :
    m.active = some j.revision ∧ getJob m j.revision = some j := by
  obtain ⟨a, ha, hget⟩ := Option.bind_eq_some_iff.mp hj
  have hrev := (Table.get_mem hget).2
  exact ⟨hrev ▸ ha, hrev ▸ hget⟩

/-- An active job that is not uncertain is not spent. -/
theorem Rest.unspent (h : Rest l F m w) {j : Job} (hj : activeJob m = some j)
    (hs : ¬ j.status.isUncertain = true) :
    spent w.log j.revision = false := by
  obtain ⟨ha, hget⟩ := activeJob_eq hj
  obtain ⟨j', hj', -, -, hterminal⟩ := h.valid.get_active ha
  rw [hget] at hj'
  cases hj'
  refine h.fenced.unspent hget ?_
  rintro (hu | hsuccess)
  · exact hs hu
  · exact hterminal (hsuccess ▸ success_terminal l)

/-- A revision that was left is skipped. -/
theorem meets_isCurrent {β : Type} {Q : Except Raised β → Saved → World → Prop}
    {f : Bool → Method β} (h : Rest l F m w) (ha : m.active = some a)
    (hspent : spent w.log a = false) (htrue : Task.Meets (Pre l F) effect (f true) Q m w)
    (hfalse : ∀ m' w', Rest l F m' w' → Task.Meets (Pre l F) effect (f false) Q m' w')
    (herror : ∀ e, Q (.error e) m w) :
    Task.Meets (Pre l F) effect (isCurrent l.config.role a >>= f) Q m w := by
  unfold isCurrent
  rw [Task.meets_bind]
  refine meets_currentRevision h.toGood (fun v _ => ?_) herror
  by_cases hv : v = a
  · simp only [hv, if_true]
    exact htrue
  · simp only [hv, if_false]
    exact meets_skip h.toGood ha hspent fun m' w' hrest _ => hfalse m' w' hrest

/-- The operator's recovery of an uncertain job. -/
theorem resolve_meets {again : Status} {refusal : String} {recovery : Recovery} (h : Rest l F m w)
    (hstatus : again ∈ l.config.role.statuses ∧ again ∉ l.config.role.terminal)
    (hretry : ∀ j, activeJob m = some j → j.status.isUncertain = true → recovery = .retry →
      spent w.log j.revision = false) :
    Keeps l F (resolveUncertain l.config.role again refusal recovery) m w := by
  unfold Keeps resolveUncertain
  rw [Task.meets_memory_bind]
  cases hj : activeJob m with
  | none => exact h
  | some j =>
    obtain ⟨ha, hget⟩ := activeJob_eq hj
    by_cases hs : j.status.isUncertain = true
    · have hround := h.valid.round_of_uncertain ha hget hs
      simp only [hs, if_true]
      cases recovery with
      | succeeded =>
        refine meets_succeed h.toGood ha hround ?_ fun m' w' hrest => hrest
        exact fun _ => ⟨rfl, rfl⟩
      | retry =>
        refine meets_setStatus h ha hstatus.1 hstatus.2 hround (fun hspent => ?_)
          fun m' w' hrest _ _ _ _ _ _ => hrest
        rw [hretry j hj hs rfl] at hspent
        cases hspent
    · simp only [hs]
      exact h

/-- `__enter__` on a file: an interrupted publication becomes uncertain. -/
theorem recover_meets (h : Rest l F m w) : Keeps l F recover m w := by
  unfold Keeps recover
  rw [Task.meets_memory_bind]
  cases hj : activeJob m with
  | none => exact h
  | some j =>
    obtain ⟨ha, hget⟩ := activeJob_eq hj
    by_cases hs : j.status = .publishing
    · simp only [hs, if_true]
      have hround := h.valid.round_of_uncertain ha hget (by rw [hs]; rfl)
      have huncertain : Status.uncertain ∈ l.config.role.statuses ∧
          Status.uncertain ∉ l.config.role.terminal := by
        rcases l.role_eq with h | h <;> rw [h] <;> decide
      exact meets_setStatus h ha huncertain.1 huncertain.2 hround (fun _ => Or.inl rfl)
        fun m' w' hrest _ _ _ _ _ _ => hrest
    · simp only [hs, if_false]
      exact h

end

/-! ### The client -/

section
variable {c : ClientConfig} {F : Prop} {m : Saved} {w : World} {a : String}

/-- A job of a client has a round. -/
theorem client_round (h : Valid (Kind.client c).config m) (ha : m.active = some a) :
    roundOf m a ≠ none := by
  intro hnone
  obtain ⟨j, -, -, hskipped⟩ := h.round_none (l := .client c) ha hnone
  have hnot : Status.skipped ∉ clientRole.roundOptional := by decide
  exact hnot hskipped

variable {β : Type} {Q : Except Raised β → Saved → World → Prop}

/-- A client moves on with its job. -/
theorem client_setStatus {status : Status} {f : Unit → Method β} (h : Rest (.client c) F m w)
    (ha : m.active = some a) (hstatus : status ∈ clientRole.statuses ∧ status ∉ clientRole.terminal)
    (hmark : spent w.log a = true → Marked clientRole status)
    (hq : ∀ m' w', Rest (.client c) F m' w' → w'.disk = some m' → w'.log = w.log →
      m'.active = some a → (∀ b, roundOf m' b = roundOf m b) → statusOf m' a = some status →
      Task.Meets (Pre (.client c) F) effect (f ()) Q m' w') :
    Task.Meets (Pre (.client c) F) effect (setStatus a status >>= f) Q m w := by
  rw [Task.meets_bind]
  exact meets_setStatus h ha hstatus.1 hstatus.2 (client_round h.valid ha) hmark
    fun m' w' hrest hdisk hlog hactive _ hrounds => hq m' w' hrest hdisk hlog hactive hrounds

/-- A context that passes is of the job's round. -/
theorem meets_checkContext {f : Context → Method β} (h : Good (.client c) F m w)
    (hok : ∀ context : Context, context.baseRevision = a → roundOf m a = some context.sourceRound →
      Task.Meets (Pre (.client c) F) effect (f context) Q m w)
    (herror : ∀ e, Q (.error e) m w) :
    Task.Meets (Pre (.client c) F) effect (checkContext c a >>= f) Q m w := by
  unfold checkContext
  rw [Task.meets_bind]
  refine meets_ask_bind (.readContext a) trivial rfl h (fun context => ?_) herror
  rw [Task.meets_memory_bind]
  by_cases hc : context.backend = c.backend ∧ context.repoId = c.repoId ∧ context.baseRevision = a ∧
      roundOf m a = some context.sourceRound ∧ context.baseModelDir = "base_model"
  · simp only [hc, and_self, if_true]
    exact hok context hc.2.2.1 hc.2.2.2.1
  · simp only [hc, if_false]
    exact herror _

/-- What is raised leaves the job uncertain, and an interrupt leaves it publishing. -/
theorem submissionFailed_meets {e : Raised} (h : Rest (.client c) F m w) (ha : m.active = some a)
    {Q : Except Raised Json.Value → Saved → World → Prop}
    (hq : ∀ e m' w', Rest (.client c) F m' w' → Q (.error e) m' w') :
    Task.Meets (Pre (.client c) F) effect (submissionFailed a e) Q m w := by
  unfold submissionFailed
  by_cases he : e = .interrupt
  · rw [if_pos he]
    exact hq e m w h
  · rw [if_neg he]
    exact client_setStatus h ha (by decide) (fun _ => Or.inl rfl) fun m' w' hrest _ _ _ _ _ =>
      hq _ m' w' hrest

/-- The publication, behind its fence. -/
theorem clientPublish_meets (h : Rest (.client c) F m w) (ha : m.active = some a)
    (hspent : spent w.log a = false) :
    Keeps (.client c) F (clientPublish c a) m w := by
  unfold clientPublish
  refine meets_isCurrent (l := .client c) h ha hspent ?_ (fun m' w' hrest => hrest) (fun _ => h)
  refine meets_checkContext h.toGood (fun context hbase hround => ?_) (fun _ => h)
  refine meets_ask_bind (.validateSubmission a) trivial rfl h.toGood (fun _ => ?_) (fun _ => h)
  refine client_setStatus h ha (by decide) (fun _ => Or.inl rfl)
    fun m₁ w₁ hrest hdisk hlog hactive hrounds hstatus => ?_
  -- The mark is in the file before the remote call.
  have hspent₁ : spent w₁.log a = false := hlog ▸ hspent
  have hround₁ : roundOf m₁ a = some context.sourceRound := (hrounds a).trans hround
  rw [Task.meets_bind, Task.meets_handle]
  unfold submitRound
  refine meets_ask_bind (.validateSubmission a) trivial rfl hrest.toGood (fun _ => ?_)
    fun e => submissionFailed_meets hrest hactive fun _ _ _ hend => hend
  rw [hbase]
  refine meets_ask_publish (.publishSubmission a context.sourceRound) rfl (fun _ _ => rfl)
    (fun h => h) hrest hdisk
    hstatus hspent₁ (fun hF => ?_) fun r w₂ hrest₂ => ?_
  · have hlate := (hrest.fresh hF).1 a context.sourceRound hactive hround₁
    unfold World.completed
    rw [hdisk]
    exact hlate
  · cases r with
    | error e => exact submissionFailed_meets hrest₂ hactive fun _ _ _ hend => hend
    | ok result =>
      show Task.Meets _ _ (_ >>= _) _ m₁ w₂
      rw [Task.meets_bind]
      refine meets_succeed (l := .client c) hrest₂.toGood hactive
        (client_round hrest₂.valid hactive) ?_
        fun m' w' hend => hend
      exact fun _ => ⟨rfl, rfl⟩

/-- A job that is not spent may get any status. -/
theorem marked_of_unspent {role : Role} {status : Status} (hspent : spent w.log a = false)
    (h : spent w.log a = true) :
    Marked role status := by
  rw [hspent] at h
  cases h

section
variable (h : Rest (.client c) F m w)
include h

/-- A job that is trained. -/
theorem clientTrain_meets (ha : m.active = some a) (hspent : spent w.log a = false) :
    Keeps (.client c) F (clientTrain c a) m w := by
  unfold clientTrain
  refine meets_isCurrent (l := .client c) h ha hspent ?_ (fun m' w' hrest => hrest) (fun _ => h)
  refine meets_checkContext h.toGood (fun context _ _ => ?_) (fun _ => h)
  refine meets_ask_bind (.removeOwned a) trivial rfl h.toGood (fun _ => ?_) (fun _ => h)
  refine meets_ask_bind (.train a) trivial rfl h.toGood (fun _ => ?_) (fun _ => h)
  refine client_setStatus h ha (by decide) (marked_of_unspent hspent)
    fun m' w' hrest _ hlog hactive _ _ => ?_
  exact clientPublish_meets hrest hactive (hlog ▸ hspent)

/-- A job that is downloaded. -/
theorem clientDownload_meets (ha : m.active = some a) (hspent : spent w.log a = false) :
    Keeps (.client c) F (clientDownload c a) m w := by
  unfold clientDownload
  refine client_setStatus h ha (by decide) (marked_of_unspent hspent)
    fun m₁ w₁ hrest _ hlog hactive _ _ => ?_
  have hspent₁ : spent w₁.log a = false := hlog ▸ hspent
  refine meets_ask_bind (.removeOwned a) trivial rfl hrest.toGood (fun _ => ?_) (fun _ => hrest)
  refine meets_ask_bind (.download a) trivial rfl hrest.toGood (fun round => ?_) (fun _ => hrest)
  rw [Task.meets_memory_bind]
  by_cases hround : roundOf m₁ a = some round
  · simp only [hround, if_true]
    refine meets_isCurrent (l := .client c) hrest hactive hspent₁ ?_ (fun m' w' hend => hend)
      (fun _ => hrest)
    refine client_setStatus hrest hactive (by decide) (marked_of_unspent hspent₁)
      fun m₂ w₂ hrest₂ _ hlog₂ hactive₂ _ _ => ?_
    exact clientTrain_meets hrest₂ hactive₂ (hlog₂ ▸ hspent₁)
  · simp only [hround, if_false]
    exact hrest

/-- A job that goes on where it stopped. -/
theorem clientWork_meets (ha : m.active = some a) (hspent : spent w.log a = false) :
    Keeps (.client c) F (clientWork c a) m w := by
  unfold Keeps clientWork
  rw [Task.meets_bind]
  refine meets_ask_jobDir h fun r w' _ hlog hrest => ?_
  have hspent' : spent w'.log a = false := hlog ▸ hspent
  cases r with
  | error e => exact hrest
  | ok u =>
    show Task.Meets _ _ (_ >>= _) _ m w'
    rw [Task.meets_memory_bind]
    split
    · exact clientDownload_meets hrest ha hspent'
    · exact clientDownload_meets hrest ha hspent'
    · exact clientTrain_meets hrest ha hspent'
    · exact clientPublish_meets hrest ha hspent'

/-- A new job is written before its round is looked at. -/
theorem clientSchedule_meets (ha : m.active = none) (hname : a ≠ "") :
    Keeps (.client c) F (clientSchedule c a) m w := by
  unfold Keeps clientSchedule
  rw [Task.meets_memory_bind]
  cases hnew : getJob m a with
  | some j => exact h
  | none =>
    simp only [Option.isSome_none, Bool.false_eq_true, if_false]
    refine meets_ask_bind (.roundMetadata a) trivial rfl h.toGood (fun round => ?_) (fun _ => h)
    have hpending : Status.pending ∈ clientRole.statuses ∧
        Status.pending ∉ clientRole.terminal := by decide
    have hvalid :=
      h.valid.add ha { revision := a, sourceRound := some round, status := .pending } hnew hname
      hpending.1 hpending.2 (success_terminal (.client c)) (fun hnone => by cases hnone)
    have hfenced :=
      h.fenced.add { revision := a, sourceRound := some round, status := .pending } hnew
    have hunspent := h.fenced.unspent_of_none hnew
    rw [Task.meets_modify_bind, Task.meets_bind]
    refine meets_save ⟨hvalid, hfenced, h.sound⟩ fun w' hdisk hlog hgood => ?_
    by_cases hdone : (round : Int) ≤ m.completedRound
    · simp only [hdone, if_true]
      exact meets_skip (l := .client c) hgood rfl (hlog ▸ hunspent) fun m' w' hend _ => hend
    · simp only [hdone, if_false]
      refine clientWork_meets (hgood.rest hdisk fun _ => ?_) rfl (hlog ▸ hunspent)
      intro b n hb hn
      cases hb
      unfold roundOf at hn
      rw [getJob_addJob hnew, if_pos rfl] at hn
      cases hn
      exact not_le.mp hdone

/-- **A poll of the client.** -/
theorem clientPoll_meets : Keeps (.client c) F (clientPoll c) m w := by
  unfold Keeps clientPoll
  rw [Task.meets_memory_bind]
  cases hj : activeJob m with
  | none =>
    have ha := h.valid.active_none (l := .client c) hj
    exact meets_currentRevision h.toGood (fun v hv => clientSchedule_meets h ha hv) fun _ => h
  | some j =>
    by_cases hs : j.status.isUncertain = true
    · simp only [hs, if_true]
      exact h
    · obtain ⟨ha, -⟩ := activeJob_eq hj
      have hspent := h.unspent hj hs
      simp only [hs]
      refine meets_currentRevision h.toGood (fun v hv => ?_) fun _ => h
      by_cases hrev : j.revision = v
      · simp only [hrev, if_true]
        exact clientWork_meets h (hrev ▸ ha) (hrev ▸ hspent)
      · simp only [hrev, if_false]
        exact meets_skip (l := .client c) h.toGood ha hspent fun m' w' hrest hactive =>
          clientSchedule_meets hrest hactive hv

end

end

/-! ### The owner -/

section
variable {c : OwnerConfig} {F : Prop} {m : Saved} {w : World} {a : String}

/-- The owner changes its job in memory. -/
theorem Rest.modify_owner (h : Rest (.owner c) F m w) (ha : m.active = some a) {f : Job → Job}
    (hf : ∀ j, (f j).revision = j.revision) (hstatus : ∀ j, (f j).status = j.status)
    (hround : ∀ j, (f j).sourceRound = none → j.sourceRound = none) :
    Rest (.owner c) F (modifyJob a f m) w := by
  refine ⟨⟨h.valid.modify ha hf (success_terminal (.owner c)) fun j hj => ?_,
    h.fenced.modify hf fun j hj hs => ?_, h.sound⟩, h.saved, fun hF => ⟨trivial, (h.fresh hF).2⟩⟩
  · obtain ⟨j', hj', hmem, -, hterminal⟩ := h.valid.get_active ha
    rw [hj] at hj'
    cases hj'
    rw [hstatus]
    exact ⟨h.valid.statuses j hmem, hterminal, fun hnone => h.valid.rounds j hmem (hround j hnone)⟩
  · obtain ⟨j', hj', hmarked⟩ := h.fenced a hs
    rw [hj] at hj'
    cases hj'
    rw [hstatus]
    exact hmarked

variable {β : Type} {Q : Except Raised β → Saved → World → Prop}

theorem meets_checkPolicy {f : Unit → Method β} (h : Rest (.owner c) F m w)
    (hok : Task.Meets (Pre (.owner c) F) effect (f ()) Q m w) (herror : ∀ e, Q (.error e) m w) :
    Task.Meets (Pre (.owner c) F) effect (checkPolicy c >>= f) Q m w := by
  unfold checkPolicy
  rw [Task.meets_bind]
  refine meets_ask_bind .policyDigest trivial rfl h.toGood (fun digest => ?_) herror
  by_cases hd : digest = c.allowlistDigest
  · simp only [hd, if_true]
    exact hok
  · simp only [hd, if_false]
    exact herror _

/-- The job of an attempt: its round is known, and it is not completed. -/
structure Attempt (m : Saved) (w : World) (a : String) : Prop where
  active : m.active = some a
  unspent : spent w.log a = false
  round : ∃ n, roundOf m a = some n ∧ m.completedRound < (n : Int)

section
variable (h : Rest (.owner c) F m w)
include h

/-- An owner moves on with its job. -/
theorem owner_setStatus {status : Status} (ha : m.active = some a) (hround : roundOf m a ≠ none)
    (hstatus : status ∈ ownerRole.statuses ∧ status ∉ ownerRole.terminal)
    (hmark : spent w.log a = true → Marked ownerRole status)
    {Q : Except Raised Unit → Saved → World → Prop}
    (hq : ∀ m' w', Rest (.owner c) F m' w' → w'.disk = some m' → w'.log = w.log →
      m'.active = some a → m'.completedRound = m.completedRound →
      (∀ b, roundOf m' b = roundOf m b) → statusOf m' a = some status → Q (.ok ()) m' w') :
    Task.Meets (Pre (.owner c) F) effect (setStatus a status) Q m w :=
  meets_setStatus h ha hstatus.1 hstatus.2 hround hmark hq

/-- A round that failed is uncertain if it may have published. -/
theorem roundFailed_meets {e : Raised} (ha : m.active = some a)
    (hround : roundOf m a ≠ none) {Q : Except Raised Published → Saved → World → Prop}
    (hq : ∀ e m' w', Rest (.owner c) F m' w' → Q (.error e) m' w') :
    Task.Meets (Pre (.owner c) F) effect (roundFailed a e) Q m w := by
  unfold roundFailed
  rw [Task.meets_memory_bind]
  by_cases he : e ≠ .interrupt ∧ (statusOf m a = some .publishing ∨ e = .publicationUncertain)
  · rw [if_pos he, Task.meets_bind]
    exact owner_setStatus h ha hround (by decide) (fun _ => Or.inl rfl)
      fun m' w' hrest _ _ _ _ _ _ => hq _ m' w' hrest
  · rw [if_neg he]
    exact hq e m w h

/-- The hook: either it raises, or the mark is in the file. -/
theorem beforePublish_meets {p : Prepared} {f : Unit → Method β} (hatt : Attempt m w a)
    (hok : ∀ m' w', Rest (.owner c) F m' w' → w'.disk = some m' → Attempt m' w' a →
      statusOf m' a = some .publishing → p.revision = a → roundOf m' a = some p.roundNumber →
      Task.Meets (Pre (.owner c) F) effect (f ()) Q m' w')
    (herror : ∀ e, Q (.error e) m w) :
    Task.Meets (Pre (.owner c) F) effect (beforePublish c a p >>= f) Q m w := by
  obtain ⟨n, hn, hlate⟩ := hatt.round
  unfold beforePublish
  rw [Task.meets_bind]
  refine meets_checkPolicy h ?_ herror
  rw [Task.meets_memory_bind]
  by_cases hcontext : p.repoId = c.repoId ∧ p.revision = a ∧ roundOf m a = some p.roundNumber ∧
    p.referenceName = "main"
  · rw [if_pos hcontext]
    by_cases hdocument : p.documentRound = p.roundNumber + 1 ∧ p.documentBase = a
    · rw [if_pos hdocument, Task.meets_modify_bind]
      have hmodified :=
        h.modify_owner hatt.active (f := fun j => { j with publicationIntent := some p.intent })
        (fun _ => rfl) (fun _ => rfl) (fun _ h => h)
      have hrounds :=
        roundOf_modifyJob (m := m) (a := a)
          (f := fun j => { j with publicationIntent := some p.intent })
        (fun _ => rfl) (fun _ => rfl)
      refine owner_setStatus hmodified hatt.active (by rw [hrounds, hn]; simp) (by decide)
        (fun _ => Or.inl rfl)
        fun m' w' hrest hdisk hlog hactive hcompleted hrounds' hstatus => ?_
      have hround' : roundOf m' a = some n := (hrounds' a).trans ((hrounds a).trans hn)
      refine hok m' w' hrest hdisk ⟨hactive, hlog ▸ hatt.unspent, n, hround', ?_⟩ hstatus
        hcontext.2.1
        ((hrounds' a).trans ((hrounds a).trans hcontext.2.2.1))
      rw [hcompleted]
      exact hlate
    · rw [if_neg hdocument]
      exact herror _
  · rw [if_neg hcontext]
    exact herror _

/-- The publication, behind its fence. -/
theorem ownerPublish_meets (hatt : Attempt m w a) : Keeps (.owner c) F (ownerPublish c a) m w := by
  have hround : roundOf m a ≠ none := by
    obtain ⟨n, hn, -⟩ := hatt.round
    simp [hn]
  unfold Keeps ownerPublish
  rw [Task.meets_bind, Task.meets_handle]
  unfold runRound
  refine meets_ask_bind (.aggregate a) trivial rfl h.toGood (fun p => ?_)
    fun e => roundFailed_meets h hatt.active hround fun _ _ _ hend => hend
  refine beforePublish_meets h hatt (fun m₁ w₁ hrest hdisk hatt₁ hstatus hrevision hround₁ => ?_)
    fun e => roundFailed_meets h hatt.active hround fun _ _ _ hend => hend
  have hknown : roundOf m₁ a ≠ none := by simp [hround₁]
  rw [hrevision]
  refine meets_ask_publish (.publishAggregate a p.roundNumber) rfl (fun _ _ => rfl)
    (fun h => h) hrest hdisk hstatus
    hatt₁.unspent (fun _ => ?_) fun r w₂ hrest₂ => ?_
  · -- The file has the completed round that the probe was compared with.
    obtain ⟨n, hn, hlate⟩ := hatt₁.round
    rw [hround₁] at hn
    cases hn
    unfold World.completed
    rw [hdisk]
    exact hlate
  · cases r with
    | error e => exact roundFailed_meets hrest₂ hatt₁.active hknown fun _ _ _ hend => hend
    | ok outcome =>
      by_cases hconfirmed : outcome.status = "published" ∧ outcome.publication.isSome = true
      · simp only [hconfirmed, and_self, if_true]
        rw [Task.meets_bind]
        refine meets_succeed (l := .owner c) hrest₂.toGood hatt₁.active hknown ?_
          fun m' w' hend => hend
        exact fun _ => ⟨rfl, rfl⟩
      · simp only [hconfirmed, if_false]
        rw [Task.meets_bind]
        exact owner_setStatus hrest₂ hatt₁.active hknown (by decide) (fun _ => Or.inl rfl)
          fun m' w' hend _ _ _ _ _ _ => hend

/-- An attempt at a round. -/
theorem ownerAttempt_meets (hatt : Attempt m w a) : Keeps (.owner c) F (ownerAttempt c a) m w := by
  obtain ⟨n, hn, hlate⟩ := hatt.round
  unfold Keeps ownerAttempt
  rw [Task.meets_bind]
  refine meets_ask_jobDir h fun r w' _ hlog hrest => ?_
  cases r with
  | error e => exact hrest
  | ok u =>
    have hmodified :=
      hrest.modify_owner hatt.active (f := fun j => { j with attempt := j.attempt.map (· + 1) })
      (fun _ => rfl) (fun _ => rfl) (fun _ h => h)
    have hrounds :=
      roundOf_modifyJob (m := m) (a := a)
        (f := fun j => { j with attempt := j.attempt.map (· + 1) })
      (fun _ => rfl) (fun _ => rfl)
    have hspent : spent w'.log a = false := hlog ▸ hatt.unspent
    show Task.Meets _ _ (_ >>= _) _ m w'
    rw [Task.meets_modify_bind]
    refine meets_ask_bind (.safePaths a) trivial rfl hmodified.toGood (fun _ => ?_)
      (fun _ => hmodified)
    rw [Task.meets_bind]
    refine owner_setStatus hmodified hatt.active (by rw [hrounds, hn]; simp) (by decide)
      (marked_of_unspent hspent)
      fun m₂ w₂ hrest₂ _ hlog₂ hactive hcompleted hrounds₂ _ => ?_
    refine ownerPublish_meets hrest₂
      ⟨hactive, hlog₂ ▸ hspent, n, (hrounds₂ a).trans ((hrounds a).trans hn), ?_⟩
    rw [hcompleted]
    exact hlate

/-- Every poll compares the round with the completed one. -/
theorem ownerProbe_meets (ha : m.active = some a) (hspent : spent w.log a = false) :
    Keeps (.owner c) F (ownerProbe c a) m w := by
  unfold ownerProbe
  refine meets_ask_bind (.probe a) trivial rfl h.toGood (fun probe => ?_) (fun _ => h)
  rw [Task.meets_memory_bind]
  by_cases hprobe : probe.baseRevision = a ∧
    (roundOf m a = none ∨ roundOf m a = some probe.roundNumber)
  · rw [if_pos hprobe, Task.meets_modify_bind]
    obtain ⟨j, hj, -⟩ := h.valid.get_active ha
    have hmodified :=
      h.modify_owner ha (f := fun j => { j with sourceRound := some probe.roundNumber })
      (fun _ => rfl) (fun _ => rfl) (fun _ h => by cases h)
    have hround : roundOf
        (modifyJob a (fun j => { j with sourceRound := some probe.roundNumber }) m) a =
        some probe.roundNumber := by
      unfold roundOf
      rw [getJob_modifyJob (f := fun j => { j with sourceRound := some probe.roundNumber })
        (fun _ => rfl), if_pos rfl, hj]
      rfl
    by_cases hdone : (probe.roundNumber : Int) ≤ m.completedRound
    · rw [if_pos hdone]
      exact meets_skip (l := .owner c) hmodified.toGood ha hspent fun m' w' hend _ => hend
    · rw [if_neg hdone]
      by_cases hready : probe.ready = true
      · rw [if_pos hready]
        refine meets_currentRevision hmodified.toGood (fun v _ => ?_) fun _ => hmodified
        by_cases hv : v = a
        · simp only [hv, if_true]
          refine meets_checkPolicy hmodified ?_ fun _ => hmodified
          exact ownerAttempt_meets hmodified ⟨ha, hspent, probe.roundNumber, hround,
            not_le.mp hdone⟩
        · simp only [hv, if_false]
          exact meets_skip (l := .owner c) hmodified.toGood ha hspent fun m' w' hend _ => hend
      · rw [if_neg hready, Task.meets_bind]
        exact owner_setStatus hmodified ha (by simp [hround]) (by decide) (marked_of_unspent hspent)
          fun m' w' hend _ _ _ _ _ _ => hend
  · rw [if_neg hprobe]
    exact h

/-- A revision that is new to the owner. -/
theorem ownerSchedule_meets (ha : m.active = none) (hname : a ≠ "") :
    Keeps (.owner c) F (ownerSchedule c a) m w := by
  unfold Keeps ownerSchedule
  rw [Task.meets_memory_bind]
  cases hnew : getJob m a with
  | some j => exact h
  | none =>
    have hpending : Status.pending ∈ ownerRole.statuses ∧
        Status.pending ∉ ownerRole.terminal := by decide
    have hoptional : Status.pending ∈ ownerRole.roundOptional ∧
        Status.skipped ∈ ownerRole.roundOptional := by decide
    have hvalid :=
      h.valid.add ha { revision := a, sourceRound := none, status := .pending, attempt := some 0 }
        hnew hname
      hpending.1 hpending.2 (success_terminal (.owner c)) fun _ => hoptional
    have hfenced :=
      h.fenced.add { revision := a, sourceRound := none, status := .pending, attempt := some 0 }
        hnew
    simp only [Option.isSome_none, Bool.false_eq_true, if_false]
    rw [Task.meets_modify_bind, Task.meets_bind]
    refine meets_save ⟨hvalid, hfenced, h.sound⟩ fun w' hdisk hlog hgood => ?_
    exact ownerProbe_meets (hgood.rest hdisk fun _ => trivial) rfl
      (hlog ▸ h.fenced.unspent_of_none hnew)

/-- **A poll of the owner.** -/
theorem ownerPoll_meets : Keeps (.owner c) F (ownerPoll c) m w := by
  unfold Keeps ownerPoll
  rw [Task.meets_memory_bind]
  cases hj : activeJob m with
  | none =>
    have ha := h.valid.active_none (l := .owner c) hj
    refine meets_checkPolicy h ?_ fun _ => h
    exact meets_currentRevision h.toGood (fun v hv => ownerSchedule_meets h ha hv) fun _ => h
  | some j =>
    by_cases hs : j.status.isUncertain = true
    · simp only [hs, if_true]
      exact h
    · obtain ⟨ha, -⟩ := activeJob_eq hj
      have hspent := h.unspent hj hs
      -- What follows the removal of an old attempt.
      have hgo : Keeps (.owner c) F (do
          let revision ← currentRevision
          if j.revision = revision then ownerProbe c revision
          else do
            skip ownerRole j.revision "reference_advanced"
            ownerSchedule c revision) m w := by
        refine meets_currentRevision h.toGood (fun v hv => ?_) fun _ => h
        by_cases hrev : j.revision = v
        · simp only [hrev, if_true]
          exact ownerProbe_meets h (hrev ▸ ha) (hrev ▸ hspent)
        · simp only [hrev, if_false]
          exact meets_skip (l := .owner c) h.toGood ha hspent fun m' w' hrest hactive =>
            ownerSchedule_meets hrest hactive hv
      simp only [hs]
      refine meets_checkPolicy h ?_ fun _ => h
      show Task.Meets _ _ (ite _ _ _) _ m w
      by_cases hold : j.status = .aggregating ∧ j.attempt.getD 0 ≠ 0
      · rw [if_pos hold]
        exact meets_ask_bind (.removeOwned j.revision) trivial rfl h.toGood (fun _ => hgo)
          fun _ => h
      · rw [if_neg hold]
        exact hgo

end

end

/-! ### Runs -/

section
variable {l : Kind} {F : Prop} {s : State}

/-- What holds between two actions. -/
def Inv (l : Kind) (F : Prop) (s : State) : Prop :=
  match s.process with
  | none => Sound l F s.world ∧ (F → ∀ d, s.world.disk = some d → Fresh l d)
  | some (.idle m) => Rest l F m s.world
  | some (.running p) => p.Safe (Pre l F) effect (fun r w => Rest l F r.2 w) s.world

theorem Inv.sound (h : Inv l F s) : Sound l F s.world := by
  unfold Inv at h
  split at h
  · exact h.1
  · exact h.sound
  · rename_i p _
    cases p with
    | ret r => exact h.sound
    | call op next => exact h.1.1

/-- A client does not die while the file has a job of a round that is completed already. -/
def Condition (l : Kind) (s : State) : Action → Prop
  | .crash => ∀ d, s.world.disk = some d → Fresh l d
  | _ => True

instance Fresh.decidable : (l : Kind) → (d : Saved) → Decidable (Fresh l d)
  | .owner _, _ => inferInstanceAs (Decidable True)
  | .client _, d =>
    match ha : d.active with
    | none => .isTrue fun a n h => by rw [ha] at h; cases h
    | some a =>
      match hn : roundOf d a with
      | none => .isTrue fun b n h h' => by rw [ha] at h; cases h; rw [hn] at h'; cases h'
      | some n =>
        if hlt : d.completedRound < (n : Int) then
          .isTrue fun b n' h h' => by rw [ha] at h; cases h; rw [hn] at h'; cases h'; exact hlt
        else .isFalse fun hfresh => hlt (hfresh a n ha hn)

instance Condition.decidable (l : Kind) (s : State) : (a : Action) → Decidable (Condition l s a)
  | .crash =>
    match hd : s.world.disk with
    | none => .isTrue fun d h => by rw [hd] at h; cases h
    | some d =>
      if hfresh : Fresh l d then .isTrue fun d' h => by rw [hd] at h; cases h; exact hfresh
      else .isFalse fun h => hfresh (h d hd)
  | .enter | .poll | .resolve _ | .reply _ => .isTrue trivial

variable {m : Saved} {w : World} {recovery : Recovery}

/-- A method that keeps it may start. -/
theorem start_safe {α : Type} {x : Method α} (h : Keeps l F x m w)
    (process : Option Process) (hp : process = some (start x m)) : Inv l F ⟨w, process⟩ := by
  subst hp
  show Task.Meets (Pre l F) effect (x >>= fun _ => pure ()) (Ends (α := Unit) l F) m w
  rw [Task.meets_bind]
  refine h.mono fun r m w hend => ?_
  cases r with
  | ok a | error e => exact hend

/-- A poll keeps the invariant. -/
theorem poll_meets (h : Rest l F m w) : Keeps l F l.poll m w := by
  cases l with
  | client c => exact clientPoll_meets h
  | owner c => exact ownerPoll_meets h

/-- A document that is new is valid, and fences nothing. -/
theorem enter_new (h : Sound l F s.world) (hnone : s.world.disk = none) :
    Keeps l F (save >>= fun _ => recover) { identity := l.config.identity } s.world := by
  have hgood : Good l F { identity := l.config.identity } s.world := by
    refine ⟨⟨rfl, ?_, ?_, ?_, ?_, ?_, le_refl _, ?_, ?_⟩, fun b hb => ?_, h⟩
    · simp [Table.Keyed]
    all_goals try simp
    rw [h.unsaved hnone] at hb
    cases hb
  unfold Keeps
  rw [Task.meets_bind]
  exact meets_save hgood fun w' hdisk _ hgood' =>
    recover_meets (hgood'.rest hdisk fun _ => fresh_of_inactive rfl)

/-- The history gets the operator's permission, and a document is fenced as before. -/
theorem spent_retried {log : List Event} {b : String}
    (h : spent (log ++ retried recovery m) b = true) : spent log b = true := by
  unfold retried at h
  split at h
  · split at h
    · rw [spent_concat] at h
      exact (Bool.and_eq_true _ _ |>.mp h).1
    · simpa using h
  · simpa using h

theorem Rest.retried (h : Rest l F m w) :
    Rest l F m { w with log := w.log ++ retried recovery m } := by
  have hevents : ∀ e ∈ Listener.retried recovery m, ∃ b, e = .retry b := by
    unfold Listener.retried
    split
    · split <;> simp
    · simp
  refine ⟨⟨h.valid, fun b hb => h.fenced b (spent_retried hb), fun d hd => ?_,
    fun hnone => absurd hnone h.saved, ?_,
    fun hF b n c hmem => ?_⟩, h.saved, h.fresh⟩
  · exact ⟨(h.sound.disk d hd).1, fun b hb => (h.sound.disk d hd).2 b (spent_retried hb)⟩
  · show Separated (w.log ++ Listener.retried recovery m)
    unfold Listener.retried
    split
    · split
      · exact h.sound.separated.concat fun b n c he => by cases he
      · simpa using h.sound.separated
    · simpa using h.sound.separated
  · rcases List.mem_append.mp hmem with hmem | hmem
    · exact h.sound.late hF b n c hmem
    · obtain ⟨b', he⟩ := hevents _ hmem
      cases he

/-- An operator's answer keeps the invariant. -/
theorem resolveUncertain_meets (h : Rest l F m w) : Keeps l F (l.resolveUncertain recovery) m
      { w with log := w.log ++ retried recovery m } := by
  have hretry : ∀ j, activeJob m = some j → j.status.isUncertain = true → recovery = .retry →
      spent (w.log ++ retried recovery m) j.revision = false := by
    intro j hj hs hr
    subst hr
    simp [retried, hj, hs, mark]
  cases l with
  | client c =>
    have hready : Status.ready ∈ clientRole.statuses ∧
        Status.ready ∉ clientRole.terminal := by decide
    exact resolve_meets (l := .client c) h.retried hready hretry
  | owner c =>
    have hpending : Status.pending ∈ ownerRole.statuses ∧
        Status.pending ∉ ownerRole.terminal := by decide
    exact resolve_meets (l := .owner c) h.retried hpending hretry

/-- **One action.** -/
theorem step_inv (h : Inv l F s) (a : Action) (hc : F → Condition l s a) :
    Inv l F (step l s a) := by
  obtain ⟨w, process⟩ := s
  cases a with
  | enter =>
    cases process with
    | some p => exact h
    | none =>
      obtain ⟨hsound, hfresh⟩ := h
      unfold step
      cases hd : w.disk with
      | some d =>
        simp only
        cases validateState l.config d.toJson with
        | error e => exact ⟨hsound, hfresh⟩
        | ok u =>
          obtain ⟨hvalid, hfenced⟩ := hsound.disk d hd
          refine start_safe
            (recover_meets ⟨⟨hvalid, hfenced, hsound⟩, by simp [hd],
            fun hF => ⟨hfresh hF d hd, hfresh hF⟩⟩) _ rfl
      | none =>
        simp only
        by_cases hempty : w.jobDirs.isEmpty = true
        · simp only [hempty, if_true]
          exact start_safe (enter_new (s := ⟨w, none⟩) hsound hd) _ rfl
        · simp only [hempty]
          exact ⟨hsound, hfresh⟩
  | poll =>
    cases process with
    | none => exact h
    | some p =>
      cases p with
      | idle m => exact start_safe (poll_meets h) _ rfl
      | running p => exact h
  | resolve recovery =>
    cases process with
    | none => exact h
    | some p =>
      cases p with
      | idle m => exact start_safe (resolveUncertain_meets h) _ rfl
      | running p => exact h
  | reply answer =>
    cases process with
    | none => exact h
    | some p =>
      cases p with
      | idle m => exact h
      | running p =>
        cases p with
        | ret r => exact h
        | call op next => exact h.2 (answer op)
  | crash => exact ⟨h.sound, fun hF => hc hF⟩

/-- An empty directory satisfies the invariant. -/
theorem inv_empty : Inv l F {} := by
  refine ⟨⟨fun d hd => (by cases hd), fun _ => rfl, ?_, fun _ b n c hmem => (by cases hmem)⟩,
    fun _ d hd => (by cases hd)⟩
  intro before b n c after heq
  cases before <;> cases heq

/-- Every run keeps the invariant. -/
theorem run_inv (run : List Action) (hrun : F → Run.Every (step l) (Condition l) {} run) :
    Inv l F (run.foldl (step l) {}) := by
  refine Run.keeps (P := Inv l F) (C := fun s a => F → Condition l s a)
    (fun s a hs hc => step_inv hs a hc) inv_empty ?_
  by_cases hF : F
  · exact Run.every_of_imp (fun s a hc _ => hc) (hrun hF)
  · exact Run.every_of_forall (fun _ _ hF' => absurd hF' hF) _ _

end

/-- **A listener publishes once.** In every run of a listener on an empty directory, with crashes
anywhere and with any answers: between two publications of a revision the operator has allowed
it, and the file can be reopened. If no client dies while the file has a job of a completed
round, no publication is of a completed round either. -/
theorem publishes_once (l : Kind) (run : List Action) : let w := (run.foldl (step l) {}).world
    (∀ before between after b n c n' c',
      w.log = before ++ .publish b n c :: (between ++ .publish b n' c' :: after) →
        Event.retry b ∈ between) ∧
    (∀ d, w.disk = some d → validateState l.config d.toJson = .ok ()) ∧
    (Run.Every (step l) (Condition l) {} run → ∀ b n c, Event.publish b n c ∈ w.log →
      c < (n : Int)) := by
  intro w
  have hsound := (run_inv (l := l) (F := False) run (fun hF => hF.elim)).sound
  refine ⟨fun before between after b n c n' c' heq => hsound.separated.retry_between heq,
    fun d hd => validateState_toJson (hsound.disk d hd).1, fun hrun => ?_⟩
  exact (run_inv (l := l) (F := True) run fun _ => hrun).sound.late trivial

/-- Nothing is raised, and the reference is this revision of this round. -/
def cooperative (revision : String) (round : Nat) : (op : Op) → Ans op
  | .save _ => ()
  | .resolveReference => .ok revision
  | .roundMetadata _ => .ok round
  | .jobDir _ | .safePaths _ | .removeOwned _ => .ok ()
  | .download _ => .ok round
  | .readContext r => .ok ⟨"local", "repo", r, round, "base_model"⟩
  | .train _ => .ok ()
  | .validateSubmission _ => .ok ()
  | .publishSubmission _ _ => .ok .null
  | .policyDigest => .ok none
  | .probe r => .ok ⟨r, round, true⟩
  | .aggregate r => .ok ⟨"repo", r, round, "main", round + 1, r, .null⟩
  | .publishAggregate _ _ => .ok ⟨"published", some .null, .null⟩

def replies (count : Nat) (revision : String) (round : Nat) : List Action :=
  List.replicate count (.reply (cooperative revision round))

def sampleClient : Kind := .client ⟨"local", "repo", .null, .null⟩

/-- A client dies right after its remote call. The next one finds an unknown outcome, the operator
lets it publish again, and it does. -/
def interrupted : List Action :=
  [.enter] ++ replies 2 "a" 0 ++ [.poll] ++ replies 20 "a" 0 ++ [.crash, .enter] ++
    replies 2 "a" 0 ++ [.resolve .retry] ++ replies 2 "a" 0 ++ [.poll] ++ replies 10 "a" 0

theorem publishes_once_interrupted :
    (interrupted.foldl (step sampleClient) {}).world.log =
      [.publish "a" 0 (-1), .retry "a", .publish "a" 0 (-1)] ∧
      (∀ d, (interrupted.foldl (step sampleClient) {}).world.disk = some d →
        validateState sampleClient.config d.toJson = .ok ()) ∧
      ∀ b n c, Event.publish b n c ∈ (interrupted.foldl (step sampleClient) {}).world.log →
        c < (n : Int) :=
  ⟨by decide +kernel, (publishes_once sampleClient interrupted).2.1,
    (publishes_once sampleClient interrupted).2.2 (by decide +kernel)⟩

/-- The client publishes round 0 of `a`. Then the reference is `b`, of round 0 again, and the client
dies between the write of the new job and the write that skips it. -/
def repeated : List Action :=
  [.enter] ++ replies 2 "a" 0 ++ [.poll] ++ replies 22 "a" 0 ++ [.poll] ++ replies 3 "b" 0 ++
    [.crash, .enter] ++ replies 1 "b" 0 ++ [.poll] ++ replies 18 "b" 0

/-- **A completed round is published.** -/
theorem completed_round_published :
    ¬ ∀ (l : Kind) (run : List Action) (b : String) (n : Nat) (c : Int),
      Event.publish b n c ∈ (run.foldl (step l) {}).world.log → c < (n : Int) := by
  intro h
  have hmem : Event.publish "b" 0 0 ∈
      (repeated.foldl (step sampleClient) {}).world.log := by decide +kernel
  exact absurd (h sampleClient repeated "b" 0 0 hmem) (by decide)

end Hf2l.Listener
