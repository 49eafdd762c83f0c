import Mathlib.Data.List.Induction
import Hf2l.Listener.Runs
import Hf2l.Listener.Validity

/-!
# `Hf2l.Listener.Fences`: the file fences every publication

A revision is spent when it was published and nobody has allowed to publish it again. `Fenced`
is the reason why it is not published again: its job is marked in the document, as published
or as uncertain, and the listeners publish no such job. A document is fenced before a remote
call and after it, so it does not matter where a process dies.

`Sound` holds of the directory at every call, and `Pre` is what a call needs besides. The
rules below say what the parts of the engine need and what they leave, for both listeners.
They carry a proposition `F`: if it holds, rounds are looked after too. A client that died
between the two writes of a job that is done already cannot have `F`.
-/

set_option autoImplicit false

namespace Hf2l.Listener

open Lib Lib.Process

/-! ### The history -/

/-- What one event says of a revision. -/
def mark (b : String) (before : Bool) : Event → Bool
  | .publish base _ _ => before || decide (base = b)
  | .retry revision => before && decide (revision ≠ b)

/-- The revision was published, and nobody has allowed to publish it again. -/
def spent (log : List Event) (b : String) : Bool := log.foldl (mark b) false

@[simp] theorem spent_concat (log : List Event) (e : Event) (b : String) :
    spent (log ++ [e]) b = mark b (spent log b) e := by
  simp [spent]

/-- A revision is published only if it is not spent. -/
def Separated (log : List Event) : Prop :=
  ∀ before b n c after, log = before ++ .publish b n c :: after → spent before b = false

/-- A publication is of a round that is not completed. -/
def Late (log : List Event) : Prop := ∀ b n c, Event.publish b n c ∈ log → c < (n : Int)

theorem Separated.concat {log : List Event} (h : Separated log) {e : Event}
    (he : ∀ b n c, e = .publish b n c → spent log b = false) : Separated (log ++ [e]) := by
  intro before b n c after heq
  rcases List.eq_nil_or_concat after with rfl | ⟨after, x, rfl⟩
  · obtain ⟨rfl, hlast⟩ := List.append_inj' heq rfl
    exact he b n c (List.singleton_inj.mp hlast)
  · rw [List.concat_eq_append, ← List.cons_append, ← List.append_assoc] at heq
    obtain ⟨hlog, -⟩ := List.append_inj' heq rfl
    exact h before b n c after hlog

/-- What was published stays spent until somebody allows it again. -/
theorem spent_of_publish {before between : List Event} {b : String} {n : Nat} {c : Int}
    (h : Event.retry b ∉ between) : spent (before ++ .publish b n c :: between) b = true := by
  induction between using List.reverseRecOn with
  | nil => simp [mark]
  | append_singleton between e ih =>
    have hrest : Event.retry b ∉ between := fun hm => h (List.mem_append_left _ hm)
    rw [← List.cons_append, ← List.append_assoc, spent_concat, ih hrest]
    cases e with
    | publish base m d => rfl
    | retry revision =>
      have hne : revision ≠ b := fun he => h (List.mem_append_right _ (he ▸ List.mem_cons_self))
      simp [mark, hne]

/-- Between two publications of a revision somebody has allowed it. -/
theorem Separated.retry_between {log before between after : List Event} {b : String} {n n' : Nat}
    {c c' : Int} (h : Separated log)
    (heq : log = before ++ .publish b n c :: (between ++ .publish b n' c' :: after)) :
    Event.retry b ∈ between := by
  by_contra hnone
  have hfree := h (before ++ .publish b n c :: between) b n' c' after (by simpa using heq)
  rw [spent_of_publish hnone] at hfree
  cases hfree

/-! ### The invariant -/

/-- A job that is not published again. -/
def Marked (role : Role) (status : Status) : Prop :=
  status.isUncertain = true ∨ status = role.success

def Fenced (l : Kind) (log : List Event) (s : Saved) : Prop :=
  ∀ b, spent log b = true → ∃ j, getJob s b = some j ∧ Marked l.config.role j.status

/-- The active job of a client has a round that is not completed. The owner probes it again. -/
def Fresh : Kind → Saved → Prop
  | .client _, s => ∀ a n, s.active = some a → roundOf s a = some n → s.completedRound < (n : Int)
  | .owner _, _ => True

/-- What holds of the directory at every call. -/
structure Sound (l : Kind) (F : Prop) (w : World) : Prop where
  disk : ∀ d, w.disk = some d → Valid l.config d ∧ Fenced l w.log d
  unsaved : w.disk = none → w.log = []
  separated : Separated w.log
  late : F → Late w.log

/-- What a publication needs: it is not spent, the file has its mark, and it is late enough. -/
def Publishable (F : Prop) (w : World) (b : String) (n : Nat) : Prop :=
  spent w.log b = false ∧ (∃ d, w.disk = some d ∧ statusOf d b = some .publishing) ∧
    (F → w.completed < (n : Int))

def Needs (l : Kind) (F : Prop) (w : World) : Op → Prop
  | .save s => Valid l.config s ∧ Fenced l w.log s
  | .publishSubmission b n | .publishAggregate b n => Publishable F w b n
  | _ => True

def Pre (l : Kind) (F : Prop) (op : Op) (w : World) : Prop := Sound l F w ∧ Needs l F w op

section
variable {l : Kind} {F : Prop} {m : Saved} {w : World}

/-- Memory and directory of a listener. -/
structure Good (l : Kind) (F : Prop) (m : Saved) (w : World) : Prop where
  valid : Valid l.config m
  fenced : Fenced l w.log m
  sound : Sound l F w

/-- A listener that may stop here: the next poll, or the next process, goes on. -/
structure Rest (l : Kind) (F : Prop) (m : Saved) (w : World) : Prop extends Good l F m w where
  saved : w.disk ≠ none
  fresh : F → Fresh l m ∧ ∀ d, w.disk = some d → Fresh l d

theorem Kind.role_eq (l : Kind) : l.config.role = clientRole ∨ l.config.role = ownerRole := by
  cases l with
  | client c => exact Or.inl rfl
  | owner c => exact Or.inr rfl

theorem success_terminal (l : Kind) : l.config.role.success ∈ l.config.role.terminal := by
  rcases l.role_eq with h | h <;> rw [h] <;> decide

theorem skipped_mem (l : Kind) :
    Status.skipped ∈ l.config.role.statuses ∧ Status.skipped ∈ l.config.role.terminal := by
  rcases l.role_eq with h | h <;> rw [h] <;> decide

variable {log : List Event} {a : String} {f : Job → Job} {status : Status}

/-- A job that is not marked is not spent. -/
theorem Fenced.unspent (h : Fenced l log m) {b : String} {j : Job}
    (hj : getJob m b = some j) (hnot : ¬ Marked l.config.role j.status) : spent log b = false := by
  by_contra hspent
  obtain ⟨j', hj', hmarked⟩ := h b (Bool.eq_true_of_not_eq_false hspent)
  rw [hj] at hj'
  cases hj'
  exact hnot hmarked

theorem Fenced.modify (h : Fenced l log m) (hf : ∀ j, (f j).revision = j.revision)
    (hjob : ∀ j, getJob m a = some j → spent log a = true → Marked l.config.role (f j).status) :
    Fenced l log (modifyJob a f m) := by
  intro b hb
  obtain ⟨j, hj, hmarked⟩ := h b hb
  rw [getJob_modifyJob hf]
  by_cases hab : b = a
  · subst hab
    rw [if_pos rfl, hj]
    exact ⟨f j, rfl, hjob j hj hb⟩
  · rw [if_neg hab]
    exact ⟨j, hj, hmarked⟩

theorem Fenced.add (h : Fenced l log m) (job : Job) (hnew : getJob m job.revision = none) :
    Fenced l log (addJob job m) := by
  intro b hb
  obtain ⟨j, hj, hmarked⟩ := h b hb
  have hne : b ≠ job.revision := by
    rintro rfl
    rw [hnew] at hj
    cases hj
  exact ⟨j, (getJob_addJob hnew b).trans ((if_neg hne).trans hj), hmarked⟩

/-- A revision without a job is not spent. -/
theorem Fenced.unspent_of_none (h : Fenced l log m) {b : String} (hnone : getJob m b = none) :
    spent log b = false := by
  by_contra hspent
  obtain ⟨j, hj, -⟩ := h b (Bool.eq_true_of_not_eq_false hspent)
  rw [hnone] at hj
  cases hj

/-! ### The rules of the engine -/

/-- A call that the directory does not see. -/
def Op.Silent : Op → Prop
  | .save _ | .jobDir _ | .publishSubmission _ _ | .publishAggregate _ _ => False
  | _ => True

theorem effect_silent {op : Op} (h : op.Silent) (a : Ans op) (w : World) : effect op a w = w := by
  cases op <;> first | rfl | (exact h.elim)

theorem needs_silent {op : Op} (h : op.Silent) : Needs l F w op := by
  cases op <;> trivial

variable {α : Type}

/-- A silent call answers, or it raises. -/
theorem meets_ask (op : Op) (hop : op.Silent) (hans : Ans op = Except Raised α) (h : Good l F m w)
    {Q : Except Raised α → Saved → World → Prop} (hq : ∀ r, Q r m w) :
    Task.Meets (Pre l F) effect (ask op hans) Q m w := by
  unfold ask
  rw [Task.meets_bind, Task.meets_call]
  refine ⟨⟨h.sound, needs_silent hop⟩, fun a => ?_⟩
  rw [effect_silent hop]
  exact hq _

theorem meets_ask_jobDir {revision : String} (h : Rest l F m w)
    {Q : Except Raised Unit → Saved → World → Prop}
    (hq : ∀ r w', w'.disk = w.disk → w'.log = w.log → Rest l F m w' → Q r m w') :
    Task.Meets (Pre l F) effect (ask (.jobDir revision) rfl) Q m w := by
  unfold ask
  rw [Task.meets_bind, Task.meets_call]
  refine ⟨⟨h.sound, trivial⟩, fun a => ?_⟩
  exact hq _ _ rfl rfl
    ⟨⟨h.valid, h.fenced, h.sound.disk, h.sound.unsaved, h.sound.separated, h.sound.late⟩, h.saved,
    h.fresh⟩

/-- `_save`: the file is the document. -/
theorem meets_save (h : Good l F m w) {Q : Except Raised Unit → Saved → World → Prop}
    (hq : ∀ w', w'.disk = some m → w'.log = w.log → Good l F m w' → Q (.ok ()) m w') :
    Task.Meets (Pre l F) effect save Q m w := by
  unfold save
  rw [Task.meets_memory_bind]
  refine ⟨⟨h.sound, h.valid, h.fenced⟩, fun a => ?_⟩
  refine hq _ rfl rfl ⟨h.valid, h.fenced, fun d hd => ?_, fun hnone => ?_, h.sound.separated,
    h.sound.late⟩
  · cases hd
    exact ⟨h.valid, h.fenced⟩
  · cases hnone

/-- What a saved document leaves. -/
theorem Good.rest (h : Good l F m w) (hdisk : w.disk = some m) (hfresh : F → Fresh l m) :
    Rest l F m w := by
  refine ⟨h, by simp [hdisk], fun hF => ⟨hfresh hF, fun d hd => ?_⟩⟩
  rw [hdisk] at hd
  cases hd
  exact hfresh hF

theorem roundOf_modifyJob (hf : ∀ j, (f j).revision = j.revision)
    (hround : ∀ j, (f j).sourceRound = j.sourceRound) (b : String) :
    roundOf (modifyJob a f m) b = roundOf m b := by
  unfold roundOf
  rw [getJob_modifyJob hf]
  by_cases hab : b = a
  · subst hab
    rw [if_pos rfl]
    cases getJob m b with
    | none => rfl
    | some j => exact hround j
  · rw [if_neg hab]

theorem statusOf_modifyJob (hf : ∀ j, (f j).revision = j.revision)
    (hstatus : ∀ j, (f j).status = status) {j : Job} (hj : getJob m a = some j) :
    statusOf (modifyJob a f m) a = some status := by
  unfold statusOf
  rw [getJob_modifyJob hf, if_pos rfl, hj]
  exact congrArg some (hstatus j)

/-- The round and the completed round decide whether a document is fresh. -/
theorem Fresh.congr {m' : Saved} (h : Fresh l m) (hactive : m'.active = m.active)
    (hcompleted : m'.completedRound = m.completedRound) (hround : ∀ b, roundOf m' b = roundOf m b) :
    Fresh l m' := by
  cases l with
  | owner c => trivial
  | client c =>
    intro a n ha hn
    rw [hcompleted]
    exact h a n (hactive ▸ ha) (hround a ▸ hn)

theorem fresh_of_inactive (h : m.active = none) : Fresh l m := by
  cases l with
  | owner c => trivial
  | client c =>
    intro a n ha
    rw [h] at ha
    cases ha

/-- `_set_status` of the active job, which goes on. A spent job keeps its mark. -/
theorem meets_setStatus (h : Rest l F m w) (ha : m.active = some a)
    (hstatus : status ∈ l.config.role.statuses) (hterminal : status ∉ l.config.role.terminal)
    (hround : roundOf m a ≠ none) (hmark : spent w.log a = true → Marked l.config.role status)
    {Q : Except Raised Unit → Saved → World → Prop}
    (hq : ∀ m' w', Rest l F m' w' → w'.disk = some m' → w'.log = w.log → m'.active = some a →
      m'.completedRound = m.completedRound → (∀ b, roundOf m' b = roundOf m b) →
      statusOf m' a = some status → Q (.ok ()) m' w') :
    Task.Meets (Pre l F) effect (setStatus a status) Q m w := by
  obtain ⟨j, hj, -, -, -⟩ := h.valid.get_active ha
  have hvalid : Valid l.config (modifyJob a (fun j => { j with status := status }) m) := by
    refine h.valid.modify ha (fun _ => rfl) (success_terminal l) fun j hj =>
      ⟨hstatus, hterminal, fun hnone => absurd ?_ hround⟩
    unfold roundOf
    rw [hj]
    exact hnone
  have hfenced : Fenced l w.log (modifyJob a (fun j => { j with status := status }) m) :=
    h.fenced.modify (fun _ => rfl) fun _ _ => hmark
  have hrounds := roundOf_modifyJob (m := m) (a := a) (f := fun j => { j with status := status })
    (fun _ => rfl) fun _ => rfl
  unfold setStatus
  rw [Task.meets_modify_bind]
  refine meets_save ⟨hvalid, hfenced, h.sound⟩ fun w' hdisk hlog hgood => ?_
  refine hq _ w' (hgood.rest hdisk fun hF => (h.fresh hF).1.congr rfl rfl hrounds) hdisk hlog ha rfl
    hrounds ?_
  exact statusOf_modifyJob (f := fun j => { j with status := status }) (fun _ => rfl)
    (fun _ => rfl) hj

/-- `_finish` of the active job. -/
theorem meets_finish {update : Job → Job} (h : Good l F m w) (ha : m.active = some a)
    (hupdate : ∀ j, (update j).revision = j.revision ∧ (update j).sourceRound = j.sourceRound)
    (hstatus : status ∈ l.config.role.statuses) (hterminal : status ∈ l.config.role.terminal)
    (hround : roundOf m a = none →
      status ∈ l.config.role.roundOptional ∧ Status.skipped ∈ l.config.role.roundOptional)
    (hmark : spent w.log a = true → Marked l.config.role status)
    {Q : Except Raised Unit → Saved → World → Prop}
    (hq : ∀ m' w', Rest l F m' w' → m'.active = none → Q (.ok ()) m' w') :
    Task.Meets (Pre l F) effect (finish l.config.role a status update) Q m w := by
  obtain ⟨hvalid, -⟩ := h.valid.finish ha hupdate hstatus hterminal hround
  have hfenced : Fenced l w.log (finishJob l.config.role a status update m) :=
    h.fenced.modify (f := fun j => { update j with status := status }) (fun j => (hupdate j).1)
      fun _ _ => hmark
  unfold finish
  rw [Task.meets_modify_bind]
  exact meets_save ⟨hvalid, hfenced, h.sound⟩ fun w' hdisk _ hgood =>
    hq _ w' (hgood.rest hdisk fun _ => fresh_of_inactive rfl) rfl

/-- The active job has succeeded. -/
theorem meets_succeed {update : Job → Job} (h : Good l F m w) (ha : m.active = some a)
    (hround : roundOf m a ≠ none)
    (hupdate : ∀ j, (update j).revision = j.revision ∧ (update j).sourceRound = j.sourceRound)
    {Q : Except Raised Unit → Saved → World → Prop}
    (hq : ∀ m' w', Rest l F m' w' → Q (.ok ()) m' w') :
    Task.Meets (Pre l F) effect (finish l.config.role a l.config.role.success update) Q m w := by
  have hsuccess : l.config.role.success ∈ l.config.role.statuses := by
    rcases l.role_eq with h | h <;> rw [h] <;> decide
  exact meets_finish h ha hupdate hsuccess (success_terminal l) (fun hnone => absurd hnone hround)
    (fun _ => Or.inr rfl)
    fun m' w' hrest _ => hq m' w' hrest

/-- Whatever a method returns or raises, the listener may stop there. -/
def Ends {α : Type} (l : Kind) (F : Prop) : Except Raised α → Saved → World → Prop :=
  fun _ m w => Rest l F m w

variable {β : Type} {Q : Except Raised β → Saved → World → Prop}

/-- A silent call, and what comes after it. -/
theorem meets_ask_bind {f : α → Method β} (op : Op) (hop : op.Silent)
    (hans : Ans op = Except Raised α) (h : Good l F m w)
    (hok : ∀ r, Task.Meets (Pre l F) effect (f r) Q m w) (herror : ∀ e, Q (.error e) m w) :
    Task.Meets (Pre l F) effect (ask op hans >>= f) Q m w := by
  rw [Task.meets_bind]
  refine meets_ask op hop hans h fun r => ?_
  cases r with
  | error e => exact herror e
  | ok a => exact hok a

/-- A job that is not spent is skipped. -/
theorem meets_skip {reason : String} {f : Unit → Method β} (h : Good l F m w)
    (ha : m.active = some a) (hspent : spent w.log a = false)
    (hq : ∀ m' w', Rest l F m' w' → m'.active = none → Task.Meets (Pre l F) effect (f ()) Q m' w') :
    Task.Meets (Pre l F) effect (skip l.config.role a reason >>= f) Q m w := by
  unfold skip
  rw [Task.meets_bind]
  refine meets_finish h ha ?_ (skipped_mem l).1 (skipped_mem l).2 (fun hnone => ?_)
    (fun hs => ?_) hq
  · exact fun _ => ⟨rfl, rfl⟩
  · obtain ⟨j, hj, hmem, -, -⟩ := h.valid.get_active ha
    unfold roundOf at hnone
    rw [hj] at hnone
    exact ⟨(h.valid.rounds j hmem hnone).2, (h.valid.rounds j hmem hnone).2⟩
  · rw [hspent] at hs
    cases hs

theorem text_ok {value label v : String} (h : text value label = .ok v) : v = value ∧ v ≠ "" := by
  unfold text at h
  split at h
  · cases h
  · rename_i c rest hlist
    split at h
    · cases h
    · split at h
      · cases h
      · cases h
        refine ⟨rfl, ?_⟩
        rintro rfl
        cases hlist

theorem meets_currentRevision {f : String → Method β} (h : Good l F m w)
    (hok : ∀ v, v ≠ "" → Task.Meets (Pre l F) effect (f v) Q m w) (herror : ∀ e, Q (.error e) m w) :
    Task.Meets (Pre l F) effect (currentRevision >>= f) Q m w := by
  unfold currentRevision
  rw [Task.meets_bind]
  refine meets_ask_bind .resolveReference trivial rfl h (fun revision => ?_) herror
  cases ht : text revision "resolved revision" with
  | error e => exact herror e
  | ok v => exact hok v (text_ok ht).2

/-- **A publication.** The file has its mark already, so a process that dies here leaves it
fenced. -/
theorem meets_ask_publish (op : Op) (hans : Ans op = Except Raised α) {n : Nat}
    (heffect : ∀ answer w,
      effect op answer w = { w with log := w.log ++ [.publish a n w.completed] })
    (hneeds : Publishable F w a n → Needs l F w op) (h : Rest l F m w) (hdisk : w.disk = some m)
    (hstatus : statusOf m a = some .publishing) (hspent : spent w.log a = false)
    (hlate : F → w.completed < (n : Int)) {Q : Except Raised α → Saved → World → Prop}
    (hq : ∀ r w', Rest l F m w' → Q r m w') :
    Task.Meets (Pre l F) effect (ask op hans) Q m w := by
  have hfenced : ∀ c, Fenced l (w.log ++ [.publish a n c]) m := by
    intro c b hb
    by_cases hab : a = b
    · subst hab
      obtain ⟨j, hj, hjs⟩ := Option.map_eq_some_iff.mp hstatus
      exact ⟨j, hj, Or.inl (by rw [hjs]; rfl)⟩
    · refine h.fenced b ?_
      simpa [mark, hab] using hb
  unfold ask
  rw [Task.meets_bind, Task.meets_call]
  refine ⟨⟨h.sound, hneeds ⟨hspent, ⟨m, hdisk, hstatus⟩, hlate⟩⟩, fun answer => ?_⟩
  rw [heffect]
  refine hq _ _ ⟨⟨h.valid, hfenced _, fun d hd => ?_, fun hnone => ?_, ?_, fun hF => ?_⟩, h.saved,
    h.fresh⟩
  · rw [show w.disk = some d from hd] at hdisk
    cases hdisk
    exact ⟨h.valid, hfenced _⟩
  · exact absurd hnone h.saved
  · refine h.sound.separated.concat fun b n' c he => ?_
    cases he
    exact hspent
  · intro b n' c hmem
    rcases List.mem_append.mp hmem with hmem | hmem
    · exact h.sound.late hF b n' c hmem
    · cases List.mem_singleton.mp hmem
      exact hlate hF

end

end Hf2l.Listener
