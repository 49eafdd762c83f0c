import Hf2l.Node.Safety

/-!
# `Hf2l.Node.Quarantine`: what leads out of quarantine

`quarantine` needs no guard, so an inspection, or the watchdog, may set an execution aside while a
`Start` of it is under way. Most transactions look at the state they replace. Two kinds do not: the
closing transaction of `Start` writes what the backend reports (`Revives`), and a stop, or the
watchdog, marks the execution as `STOPPING` before anything is confirmed (`Marks`).

`quarantine_sticky` says that those two, the end of a stop with its termination confirmed and the
end of a release are the only ways out of `QUARANTINED`. A mark makes nothing runnable: an execution
that is quarantined or marked stays so, but for `Start` and the same two ends.

The results are proved for any states `P` between the two, `Quarantined` and `SetAside`.
-/

set_option autoImplicit false

namespace Hf2l.Node

open Lib Lib.Checked Lib.Process

def Quarantined (state : ExecutionState) : Prop := state = .quarantined

/-- `QUARANTINED`, or the mark that a stop of the execution leaves before it calls the backend. -/
def SetAside (state : ExecutionState) : Prop := state = .quarantined ∨ state = .stopping

/-- States that are set aside, `QUARANTINED` among them. -/
structure Fenced (P : ExecutionState → Prop) : Prop where
  quarantined : P .quarantined
  aside : ∀ state, P state → SetAside state

theorem fenced_quarantined : Fenced Quarantined := ⟨rfl, fun _ => Or.inl⟩

theorem fenced_setAside : Fenced SetAside := ⟨Or.inl rfl, fun _ h => h⟩

/-- The row of the execution is in one of the states. -/
def Aside (P : ExecutionState → Prop) (w : World) (id : Identity) : Prop :=
  ∃ x ∈ w.ledger.executions, x.id = id ∧ P x.state

/-- The call that a request makes next. -/
def State.upcoming (s : State) (pid : Nat) : Option Op :=
  match Table.get (·.pid) pid s.processes with
  | some p =>
    match p.program with
    | .call op _ => some op
    | .ret _ => none
  | none => none

/-- A request makes the transaction, and it is not lost. -/
def Makes (s : State) (action : Action) (op : Op) : Prop :=
  ∃ pid answer trouble, action = .proceed pid answer trouble ∧ trouble ≠ .lost ∧
    s.upcoming pid = some op

/-- A stop of the execution ends, or its release does, and its termination has been confirmed. -/
def Ends (s : State) (action : Action) (id : Identity) : Prop :=
  id ∈ s.world.confirmed ∧
    ((∃ absent, Makes s action (.setStopped id absent)) ∨ Makes s action (.setReleased id))

/-- The closing transaction of a `Start` is made while the execution is in one of the states. -/
def Revives (P : ExecutionState → Prop) (s : State) (action : Action) (id : Identity) : Prop :=
  ∃ state, Makes s action (.startClose id state) ∧
    ∃ x, record s.world.ledger id false = .ok x ∧ P x.state

/-- A stop, or the watchdog after the lease, marks the execution while it is quarantined. -/
def Marks (s : State) (action : Action) (id : Identity) : Prop :=
  Aside Quarantined s.world id ∧
    (Makes s action (.setStopping id) ∨ Makes s action (.watchdogClaim id) ∧
    ∃ x, record s.world.ledger id false = .ok x ∧ leaseValid s.world.clocks x = false)

/-- The action leaves the execution in the states, or is one of the two ways out. -/
def KeepsAside (P : ExecutionState → Prop) (a : Agent) (s : State) (action : Action)
    (id : Identity) : Prop :=
  Aside P s.world id → Aside P (step a s action).world id ∨ Ends s action id

section
variable {P : ExecutionState → Prop} {a : Agent} {pid : Nat} {w w' : World} {id i : Identity}

/-! ### Calls -/

/-- A transaction updates one row. If that is the row, it stays aside. -/
theorem Aside.update {f : Execution → Execution} (h : Aside P w id) (hid : ∀ x, (f x).id = x.id)
    (hf : i = id → ∀ x ∈ w.ledger.executions, x.id = id → P x.state → P (f x).state) :
    Aside P { w with ledger := updateExecution w.ledger i f } id := by
  obtain ⟨x, hx, rfl, hs⟩ := h
  refine ⟨updated i f x, updateExecution_rows ▸ List.mem_map_of_mem hx, ?_⟩
  unfold updated
  split
  · next he => exact ⟨hid x, hf he.symm x hx rfl hs⟩
  · exact ⟨rfl, hs⟩

/-- A transaction that writes another state to the row takes it out. -/
theorem not_aside_update {f : Execution → Execution} (hf : ∀ x, ¬P (f x).state) :
    ¬Aside P { w with ledger := updateExecution w.ledger id f } id := by
  rintro ⟨y, hy, hyid, hset⟩
  obtain ⟨z, -, rfl⟩ := List.mem_map.mp (updateExecution_rows ▸ hy)
  unfold updated at hyid hset
  split at hyid
  · next he =>
    rw [if_pos he] at hset
    exact hf z hset
  · next he => exact he hyid

theorem aside_write {r : Except Fault Ledger} (h : Aside P w id)
    (hr : ∀ l, r = .ok l → Aside P { w with ledger := l } id) : Aside P (write w r).2 id := by
  cases r with
  | ok l => exact hr l rfl
  | error e => exact h

theorem aside_transact {α : Type} {r : Except Fault (α × Ledger)} (h : Aside P w id)
    (hr : ∀ b l, r = .ok (b, l) → Aside P { w with ledger := l } id) :
    Aside P (transact w r).2 id := by
  cases r with
  | ok bl => exact hr bl.1 bl.2 rfl
  | error e => exact h

/-- A transaction that has looked up the row and found that it is not set aside. -/
theorem Aside.unless {f : Execution → Execution} {y : Execution} (h : Aside P w id)
    (hs : Sound a.capacity w) (hid : ∀ x, (f x).id = x.id) (hrec : record w.ledger i false = .ok y)
    (hy : i = id → ¬P y.state) :
    Aside P { w with ledger := updateExecution w.ledger i f } id := by
  refine h.update hid fun he x hx hxid hxs => absurd hxs ?_
  rw [hs.row_eq hrec hx (hxid.trans he.symm)]
  exact hy he

variable {l : Ledger}

section
variable (h : Aside P w id)
include h

theorem aside_reserveOpen {spec : Spec} {opened : Opened}
    (hr : reserveOpen a.capacity w.clocks spec w.ledger = .ok (opened, l)) :
    Aside P { w with ledger := l } id := by
  cases hrec : record w.ledger spec.identity false with
  | ok prior =>
    rw [reserveOpen_prior hrec hr]
    exact h
  | error e =>
    obtain ⟨x, hx, hxid, hs⟩ := h
    rw [(reserveOpen_new hrec hr).2.ledger]
    exact ⟨x, List.mem_append_left _ hx, hxid, hs⟩

/-- The closing transaction of `Reserve` and the opening one of `Start` find a row that may run. -/
theorem aside_reserveClose (hP : Fenced P) (hs : Sound a.capacity w)
    (hr : reserveClose w.clocks i w.ledger = .ok l) : Aside P { w with ledger := l } id := by
  simp only [reserveClose, block_ok, not_or, not_not] at hr
  obtain ⟨x, hx, ⟨hstate, -⟩, rfl⟩ := hr
  refine h.unless hs (fun _ => rfl) hx fun _ hset => ?_
  rcases hP.aside _ hset with he | he <;> rw [hstate] at he <;> cases he

theorem aside_startOpen (hP : Fenced P) (hs : Sound a.capacity w)
    (hr : startOpen w.clocks i w.ledger = .ok l) : Aside P { w with ledger := l } id := by
  obtain ⟨x, hx, hopen, rfl⟩ := startOpen_ok hr
  refine h.unless hs (fun _ => rfl) hx fun _ hset => ?_
  rcases hP.aside _ hset with he | he
  · exact hopen (Or.inr (Or.inr (Or.inl he)))
  · exact hopen (Or.inl he)

theorem aside_chargeAuxiliary {total : Nat} {shared : Bool}
    (hr : chargeAuxiliary a.capacity i total shared w.ledger = .ok l) :
    Aside P { w with ledger := l } id := by
  unfold chargeAuxiliary at hr
  simp only [block_ok] at hr
  obtain ⟨x, -, -, hr⟩ := hr
  cases shared with
  | true =>
    simp only [if_true] at hr
    split at hr
    · exact pure_ok.mp hr ▸ h
    · simp only [block_ok] at hr
      obtain ⟨used, -, -, rfl⟩ := hr
      exact h
  | false =>
    simp only [Bool.false_eq_true, if_false] at hr
    split at hr
    · exact pure_ok.mp hr ▸ h
    · simp only [block_ok] at hr
      obtain ⟨used, -, -, rfl⟩ := hr
      exact h.update (fun _ => rfl) fun _ _ _ _ hs => hs

/-- The mark stays in the states, or is made on another execution. -/
theorem aside_setStopping (hmark : i = id → P .stopping) :
    Aside P { w with ledger := setStopping i w.ledger } id :=
  h.update (fun _ => rfl) fun he _ _ _ _ => hmark he

theorem aside_watchdogClaim {claimed : Bool}
    (hr : watchdogClaim w.clocks i w.ledger = .ok (claimed, l))
    (hmark : i = id → ∀ x, record w.ledger id false = .ok x → leaseValid w.clocks x = false →
      P .stopping) :
    Aside P { w with ledger := l } id := by
  simp only [watchdogClaim, bind_ok] at hr
  obtain ⟨x, hx, hr⟩ := hr
  split at hr
  · obtain ⟨-, rfl⟩ := Prod.mk.inj (pure_ok.mp hr)
    exact h
  · next hlease =>
    obtain ⟨-, rfl⟩ := Prod.mk.inj (pure_ok.mp hr)
    simp only [not_or, Bool.not_eq_true] at hlease
    exact aside_setStopping h fun he => hmark he x (he ▸ hx) hlease.2.2

theorem aside_quarantine (hP : Fenced P) :
    Aside P { w with ledger := quarantine i w.ledger } id := by
  refine h.update (fun x => ?_) fun _ x _ _ hs => ?_
  · split <;> rfl
  · split
    · exact hP.quarantined
    · exact hs

/-- A confirmation writes to no row. -/
theorem aside_confirms (confirmed : Bool) : Aside P (confirms i confirmed w) id := by
  rw [confirms_eq]
  exact h

/-- **What a call does to an execution that is set aside.** -/
theorem effect_aside {op : Op} {answer : Ans op} (hP : Fenced P) (hs : Sound a.capacity w)
    (hstart : ∀ state, op = .startClose id state → ∀ x, record w.ledger id false = .ok x →
      ¬P x.state)
    (hmark : op = .setStopping id → P .stopping)
    (hclaim : op = .watchdogClaim id → ∀ x, record w.ledger id false = .ok x →
      leaseValid w.clocks x = false → P .stopping)
    (hstopped : ∀ absent, op ≠ .setStopped id absent) (hreleased : op ≠ .setReleased id) :
    Aside P (effect a pid op answer w).2 id := by
  cases op with
  | reserveOpen spec => exact aside_transact h fun _ _ hr => aside_reserveOpen h hr
  | reserveClose i => exact aside_write h fun _ hr => aside_reserveClose h hP hs hr
  | renew i nanoseconds =>
    refine aside_write h fun l hr => ?_
    simp only [renew, block_ok] at hr
    obtain ⟨x, -, -, rfl⟩ := hr
    exact h.update (fun _ => rfl) fun _ _ _ _ hs => hs
  | startOpen i => exact aside_write h fun _ hr => aside_startOpen h hP hs hr
  | startClose i state =>
    refine aside_transact h fun _ l hr => ?_
    simp only [startClose, block_ok] at hr
    obtain ⟨x, hx, -, rfl⟩ := hr
    exact h.unless hs (fun _ => rfl) hx fun he => hstart state (he ▸ rfl) x (he ▸ hx)
  | setStopping i => exact aside_setStopping h fun he => hmark (he ▸ rfl)
  | setStopped i absent =>
    exact h.update (fun _ => rfl) fun he => absurd (he ▸ rfl) (hstopped absent)
  | setRetained i bytes => exact h.update (fun _ => rfl) fun _ _ _ _ hs => hs
  | setReleased i => exact h.update (fun _ => rfl) fun he => absurd (he ▸ rfl) hreleased
  | setPurged i auxiliaryDeleted =>
    have hrow : Aside P { w with ledger := updateExecution w.ledger i fun x =>
        { x with diskReleased := true, auxiliaryBytes := 0 } } id :=
      h.update (fun _ => rfl) fun _ _ _ _ hs => hs
    cases auxiliaryDeleted <;> exact hrow
  | chargeAuxiliary i total shared => exact aside_write h fun _ hr => aside_chargeAuxiliary h hr
  | watchdogClaim i =>
    exact aside_transact h fun _ _ hr => aside_watchdogClaim h hr fun he => hclaim (he ▸ rfl)
  | quarantine i => exact aside_quarantine h hP
  | backendInspect i | backendStop i | confirmAbsent i => exact aside_confirms h _
  | _ => exact h

end

/-- A transaction that is lost does nothing. -/
theorem perform_world {op : Op} {answer r : Ans op} {trouble : Trouble}
    (h : perform a pid op answer trouble w = some (r, w')) :
    w' = w ∨ w' = (effect a pid op answer w).2 ∧ (trouble = .lost → failure op = none) := by
  unfold perform at h
  split at h
  · split at h
    · exact Or.inl (congrArg Prod.snd (Option.some.inj h)).symm
    · split at h
      · cases h
      · exact Or.inr ⟨(congrArg Prod.snd (Option.some.inj h)).symm, fun _ => rfl⟩
  · split at h
    · exact Or.inl (congrArg Prod.snd (Option.some.inj h)).symm
    · exact Or.inr ⟨(congrArg Prod.snd (Option.some.inj h)).symm, nofun⟩
    · next hlost _ =>
      refine Or.inr ⟨(congrArg Prod.snd (Option.some.inj h)).symm, fun he => ?_⟩
      cases hfailure : failure op with
      | none => rfl
      | some e => exact (hlost e he hfailure).elim

/-! ### Steps and runs -/

variable {s : State}

/-- A call leaves the execution aside, but for the same. -/
theorem perform_aside (hP : Fenced P) (h : Sound a.capacity s.world) {op : Op}
    {answer : (op : Op) → Ans op} {trouble : Trouble} {r : Ans op}
    (hup : s.upcoming pid = some op) (hpre : Pre pid op s.world)
    (hno : ¬Revives P s (.proceed pid answer trouble) id)
    (hmarks : P .stopping ∨ ¬Marks s (.proceed pid answer trouble) id)
    (hends : ¬Ends s (.proceed pid answer trouble) id) (haside : Aside P s.world id)
    (hperform : perform a pid op (answer op) trouble s.world = some (r, w)) : Aside P w id := by
  rcases perform_world hperform with rfl | ⟨rfl, hlost⟩
  · exact haside
  have hmakes : failure op ≠ none → Makes s (.proceed pid answer trouble) op := fun hf =>
    ⟨pid, answer, trouble, rfl, fun hl => hf (hlost hl), hup⟩
  -- A mark is made on a quarantined execution, if `STOPPING` is not one of the states.
  have hstopping : (Aside Quarantined s.world id → Marks s (.proceed pid answer trouble) id) →
      P .stopping := by
    intro hmark
    refine hmarks.elim (fun hstop => hstop) fun hunmarked => ?_
    obtain ⟨x, hx, hid, hset⟩ := haside
    rcases hP.aside _ hset with he | he
    · exact absurd (hmark ⟨x, hx, hid, he⟩) hunmarked
    · exact he ▸ hset
  refine effect_aside haside hP h (fun state he x hx hset => ?_) (fun he => hstopping fun hq => ?_)
    (fun he x hx hlease => hstopping fun hq => ?_) (fun absent he => ?_) (fun he => ?_) <;> subst he
  · exact hno ⟨state, hmakes (by simp [failure]), x, hx, hset⟩
  · exact ⟨hq, Or.inl (hmakes (by simp [failure]))⟩
  · exact ⟨hq, Or.inr ⟨hmakes (by simp [failure]), x, hx, hlease⟩⟩
  -- The request has made sure that the termination is confirmed.
  · exact hends ⟨hpre.2.2, Or.inl ⟨absent, hmakes (by simp [failure])⟩⟩
  · exact hends ⟨hpre.2, Or.inr (hmakes (by simp [failure]))⟩

/-- **A step leaves the execution aside,** but for `Start`, for a mark that is outside of the states
and for the two ways out. -/
theorem step_aside (hP : Fenced P) (h : Placed a s) {action : Action} (hno : ¬Revives P s action id)
    (hmarks : P .stopping ∨ ¬Marks s action id) : KeepsAside P a s action id := by
  intro haside
  cases action with
  | call request | tick elapsed wallClock | kill pid | reboot clock wallClock => exact Or.inl haside
  | proceed pid answer trouble =>
    cases hget : Table.get (·.pid) pid s.processes with
    | none =>
      simp only [step, hget]
      exact Or.inl haside
    | some p =>
      obtain ⟨hp, rfl⟩ := Table.get_mem hget
      cases hprogram : p.program with
      | ret result =>
        simp only [step, hget, hprogram]
        exact Or.inl haside
      | call op next =>
        have hup : s.upcoming p.pid = some op := by
          unfold State.upcoming
          rw [hget]
          dsimp only
          rw [hprogram]
        have hguarded := (h.processes p hp).guarded
        rw [hprogram] at hguarded
        have hpre := (hguarded.next (Rely.refl _ _)).1
        by_cases hends : Ends s (.proceed p.pid answer trouble) id
        · exact Or.inr hends
        · left
          simp only [step, hget, hprogram]
          cases hperform : perform a p.pid op (answer op) trouble s.world with
          | none => exact haside
          | some result => exact perform_aside hP h.sound hup hpre hno hmarks hends haside hperform

/-- What a transaction that is not lost has done. -/
theorem Makes.step {action : Action} {op : Op} (h : Makes s action op) (hop : ∀ g, op ≠ .lock g) :
    ∃ pid answer, (step a s action).world = (effect a pid op answer s.world).2 := by
  obtain ⟨pid, answer, trouble, rfl, hlost, hup⟩ := h
  have hperform : ∀ ans, (perform a pid op ans trouble s.world).map Prod.snd =
      some (effect a pid op ans s.world).2 := by
    cases op <;> cases trouble <;>
      first | exact fun _ => rfl | exact absurd rfl hlost | exact absurd rfl (hop _)
  unfold State.upcoming at hup
  split at hup
  · next p hget =>
    split at hup
    · next op' next hprogram =>
      obtain rfl := Option.some.inj hup
      obtain ⟨⟨r, w⟩, hperform, hw⟩ := Option.map_eq_some_iff.mp (hperform (answer op'))
      exact ⟨pid, answer op', by simpa only [Node.step, hget, hprogram, hperform] using hw⟩
    · cases hup
  · cases hup

theorem Makes.unique {action : Action} {op op' : Op} (h : Makes s action op)
    (h' : Makes s action op') : op = op' := by
  obtain ⟨pid, answer, trouble, rfl, -, hup⟩ := h
  obtain ⟨_, _, _, he, -, hup'⟩ := h'
  cases he
  exact Option.some.inj (hup.symm.trans hup')

/-- A transaction that takes the execution out of the states, and is not one of the two ways out. -/
theorem Makes.leaves {action : Action} {op : Op} (h : Makes s action op)
    (haside : Aside P s.world id) (hop : ∀ g, op ≠ .lock g)
    (hstopped : ∀ absent, op ≠ .setStopped id absent) (hreleased : op ≠ .setReleased id)
    (hout : ∀ pid answer, ¬Aside P (effect a pid op answer s.world).2 id) :
    ¬KeepsAside P a s action id := by
  intro hkeeps
  rcases hkeeps haside with hstill | ⟨-, ⟨absent, hend⟩ | hend⟩
  · obtain ⟨pid, answer, he⟩ := h.step (a := a) hop
    exact hout pid answer (he ▸ hstill)
  · exact hstopped absent (h.unique hend)
  · exact hreleased (h.unique hend)

theorem revives_leaves (hP : Fenced P) {action : Action} (hr : Revives P s action id) :
    ¬KeepsAside P a s action id := by
  obtain ⟨state, hmakes, x, hx, hset⟩ := hr
  obtain ⟨hmem, hid⟩ := Table.get_mem (record_ok hx)
  refine hmakes.leaves ⟨x, hmem, hid, hset⟩ nofun nofun nofun fun pid answer => ?_
  have hclose : startClose s.world.clocks id state.state s.world.ledger =
      .ok (leaseValid s.world.clocks x, updateExecution s.world.ledger id
        fun x => { x with state := state.state }) := by
    unfold startClose
    rw [hx]
    rfl
  simp only [effect, hclose]
  refine not_aside_update fun y hset => ?_
  rcases hP.aside _ hset with he | he <;> cases state <;> cases he

theorem marks_leaves (h : Placed a s) {action : Action} (hm : Marks s action id) :
    ¬KeepsAside Quarantined a s action id := by
  have hout : ¬Aside Quarantined { s.world with ledger := setStopping id s.world.ledger } id :=
    not_aside_update fun _ he => nomatch he
  obtain ⟨hq, hmakes | ⟨hmakes, x, hx, hlease⟩⟩ := hm
  · exact hmakes.leaves hq nofun nofun nofun fun _ _ => hout
  · refine hmakes.leaves hq nofun nofun nofun fun _ _ => ?_
    obtain ⟨y, hy, hid, hstate⟩ := hq
    rw [h.sound.row_eq hx hy hid] at hstate
    have hclaim : watchdogClaim s.world.clocks id s.world.ledger =
        .ok (true, setStopping id s.world.ledger) := by
      unfold watchdogClaim
      rw [hx]
      simp [bind, Except.bind, show x.state = .quarantined from hstate, hlease]
      rfl
    simp only [effect, hclaim]
    exact hout

end

/-- No way leads out of quarantine by the action. -/
def Undone (id : Identity) (s : State) (action : Action) : Prop :=
  ¬Revives Quarantined s action id ∧ ¬Marks s action id ∧ ¬Ends s action id

/-- An action that is not a call of a request. -/
theorem undone_of_idle {id : Identity} {s : State} {action : Action}
    (h : ∀ pid answer trouble, action ≠ .proceed pid answer trouble) : Undone id s action := by
  have hno : ∀ op, ¬Makes s action op :=
    fun op ⟨pid, answer, trouble, he, _⟩ => h pid answer trouble he
  refine ⟨fun ⟨_, hm, _⟩ => hno _ hm, fun ⟨_, hm⟩ => ?_, fun ⟨_, hm⟩ => ?_⟩
  · exact hm.elim (hno _) fun hm => hno _ hm.1
  · exact hm.elim (fun ⟨_, hm⟩ => hno _ hm) (hno _)

/-- **Quarantine is sticky but for `Start` and the mark of a stop.** Whatever a node has been
through, an action takes an execution out of `QUARANTINED`, other than at the end of a confirmed
stop or of a release, exactly if it is the closing transaction of a `Start` under way or the mark of
a stop or of the watchdog. Out of `QUARANTINED` and `STOPPING` together it is exactly the first of
these. And an execution stays in quarantine over every run without any of them. -/
theorem quarantine_sticky (a : Agent) (run : List Action) (id : Identity) :
    (∀ action, KeepsAside Quarantined a (run.foldl (step a) {}) action id ↔
        ¬Revives Quarantined (run.foldl (step a) {}) action id ∧
          ¬Marks (run.foldl (step a) {}) action id) ∧
      (∀ action, KeepsAside SetAside a (run.foldl (step a) {}) action id ↔
        ¬Revives SetAside (run.foldl (step a) {}) action id) ∧
      ∀ more, Aside Quarantined (run.foldl (step a) {}).world id →
        Run.Every (step a) (Undone id) (run.foldl (step a) {}) more →
          Aside Quarantined ((run ++ more).foldl (step a) {}).world id := by
  have hplaced := (run_placed (placed_empty a) run).1
  refine ⟨fun action => ⟨fun hkeeps => ?_, fun hno => ?_⟩,
    fun action => ⟨fun hkeeps hr => ?_, fun hno => ?_⟩,
    fun more hq hmore => ?_⟩
  · exact ⟨fun hr => revives_leaves fenced_quarantined hr hkeeps,
      fun hm => marks_leaves hplaced hm hkeeps⟩
  · exact step_aside fenced_quarantined hplaced hno.1 (Or.inr hno.2)
  · exact revives_leaves fenced_setAside hr hkeeps
  · exact step_aside fenced_setAside hplaced hno (Or.inl (Or.inr rfl))
  · rw [List.foldl_append]
    refine (Run.keeps (P := fun s => Placed a s ∧ Aside Quarantined s.world id)
      (fun s action hs hu => ?_)
      ⟨hplaced, hq⟩ hmore).2
    exact ⟨(step_placed hs.1 action).1,
      (step_aside fenced_quarantined hs.1 hu.1 (Or.inr hu.2.1) hs.2).resolve_right hu.2.2⟩

/-! ### A `Start` that an inspection overtakes -/

def exampleAgent : Agent := ⟨"node", "pool", ⟨1000, 1000, 10 ^ 9⟩⟩

def exampleId : Identity := ⟨"job", "attempt", "worker", 1⟩

def exampleSpec : Spec :=
  { identity := exampleId
    resources := ⟨1, 1, 1⟩
    lease := 60
    resources_pos := by decide
    lease_pos := by decide }

instance : Inhabited Fault := ⟨plainFault⟩

instance (op : Op) : Inhabited (Ans op) := by cases op <;> infer_instance

/-- The backend starts what it is told to, but cannot tell what runs. -/
def exampleAnswers : (op : Op) → Ans op
  | .qualifyHealth => .ok ()
  | .backendReserve spec => .ok ⟨spec.identity, true, ""⟩
  | .backendStart _ => .ok .running
  | .backendInspect _ => .error uncertain
  | _ => default

/-- A request makes its next calls. -/
def proceeds (pid n : Nat) : List Action := List.replicate n (.proceed pid exampleAnswers .none)

/-- `Start` has called the backend, and is overtaken by an inspection. -/
def overtaken : List Action :=
  [.call (.reserve exampleSpec)] ++ proceeds 0 10 ++ [.call (.start exampleId)] ++ proceeds 1 3 ++
    [.call (.inspect exampleId)] ++ proceeds 2 3

def states (s : State) : List ExecutionState := s.world.ledger.executions.map (·.state)

/-- `Start` then closes, and the execution runs. -/
theorem overtaken_start_revives : states (overtaken.foldl (step exampleAgent) {}) = [.quarantined] ∧
      states ((overtaken ++ proceeds 1 1).foldl (step exampleAgent) {}) = [.running] := by
  decide +kernel

/-- The agent dies before `Start` closes, and the execution stays in quarantine. -/
theorem quarantine_sticky_killed : Aside Quarantined
    ((overtaken ++ [Action.kill 1, Action.call (.stop exampleId)]).foldl (step exampleAgent)
      {}).world exampleId := by
  refine (quarantine_sticky exampleAgent overtaken exampleId).2.2 _ ?_
    ⟨undone_of_idle nofun, undone_of_idle nofun, trivial⟩
  unfold Aside Quarantined
  decide +kernel

end Hf2l.Node
