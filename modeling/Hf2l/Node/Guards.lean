import Hf2l.Lib.Interleaving
import Hf2l.Node.Calls

/-!
# `Hf2l.Node.Guards`: every request makes its calls in the right place

The walk through the methods of the agent. While a request runs, the others make calls too. They
keep the world `Sound` and leave alone what the request counts on (`Rely`). Under that assumption
each method finds what its calls need (`routine_walks`): it reads a row under the guard of the
execution before it writes to it, and it releases an execution only after a confirmed termination.

A call that needs nothing of its request is `gentle`. It leaves alone even what the request itself
counts on, so that most of a walk carries its facts from call to call for nothing.
-/

set_option autoImplicit false

namespace Hf2l.Node

open Lib Lib.Checked Lib.Process Lib.Process.Task

/-- What a request may assume of the others. -/
structure Rely (capacity : ResourceLimits) (pid : Nat) (w w' : World) : Prop where
  sound : Sound capacity w → Sound capacity w'
  undisturbed : Undisturbed pid w w'

theorem Rely.refl (capacity : ResourceLimits) (pid : Nat) (w : World) : Rely capacity pid w w :=
  ⟨fun h => h, Undisturbed.refl pid w⟩

theorem Rely.trans {capacity : ResourceLimits} {pid : Nat} {u v w : World}
    (h : Rely capacity pid u v) (h' : Rely capacity pid v w) : Rely capacity pid u w :=
  ⟨fun hs => h'.sound (h.sound hs), h.undisturbed.trans h'.undisturbed⟩

/-- The walk of a request with process number `pid`. -/
def Walks {α : Type} (a : Agent) (pid : Nat) (x : Routine α) (Q : Except Fault α → World → Prop)
    (w : World) : Prop :=
  Among (Rely a.capacity pid) (Pre pid) (fun op w r w' => Outcome a pid w op r w') x
    (fun r _ w => Q r w) () w

/-- The walk leaves the world sound, however it ends. -/
abbrev Safe {α : Type} (a : Agent) (pid : Nat) (x : Routine α) (w : World) : Prop :=
  Walks a pid x (fun _ w => Sound a.capacity w) w

/-- What a request may count on from call to call. -/
structure Fact (a : Agent) (pid : Nat) (A : World → Prop) : Prop where
  stable : ∀ v v', Rely a.capacity pid v v' → A v → A v'
  sound : ∀ v, A v → Sound a.capacity v

section
variable {a : Agent} {pid : Nat} {A : World → Prop} {w : World} {id : Identity}

/-! ### Facts -/

section
variable (a : Agent) (pid : Nat) (id : Identity) (w : World)

/-- The guard is held. -/
def Held : Prop := Sound a.capacity w ∧ Holds w pid id

/-- The execution was read under the guard, and may be started or stopped. -/
def Ready : Prop := Held a pid id w ∧ Live w id

/-- The termination was confirmed under the guard. -/
def Proven : Prop := Held a pid id w ∧ id ∈ w.confirmed

end

theorem fact_sound : Fact a pid (Sound a.capacity) := ⟨fun _ _ hr h => hr.sound h, fun _ h => h⟩

theorem fact_held : Fact a pid (Held a pid id) :=
  ⟨fun _ _ hr h => ⟨hr.sound h.1, hr.undisturbed.holds id h.2⟩, fun _ h => h.1⟩

theorem fact_ready : Fact a pid (Ready a pid id) :=
  ⟨fun _ _ hr h => ⟨fact_held.stable _ _ hr h.1, hr.undisturbed.live id h.1.2 h.2⟩,
    fun _ h => h.1.1⟩

theorem fact_proven : Fact a pid (Proven a pid id) :=
  ⟨fun _ _ hr h => ⟨fact_held.stable _ _ hr h.1, hr.undisturbed.confirmed id h.1.2 h.2⟩,
    fun _ h => h.1.1⟩

/-! ### Calls -/

/-- The call needs nothing of its request, and no guard is taken or released. -/
def gentle : Op → Bool
  | .lock _ | .unlock _ | .startClose _ _ | .setStopping _ | .setStopped _ _ | .setReleased _
  | .backendStart _ => false
  | _ => true

variable {op : Op} {w' : World} {α β : Type} {allowStale : Bool} {x : Execution}

/-- A gentle call is the same whoever makes it. -/
theorem effect_gentle (hg : gentle op = true) (pid pid' : Nat) (answer : Ans op) :
    effect a pid op answer w = effect a pid' op answer w := by
  cases op <;> first | rfl | cases hg

theorem gentle_pre (hg : gentle op = true) (pid : Nat) (w : World) : Pre pid op w := by
  cases op <;> trivial

theorem gentle_lock (hg : gentle op = true) (g : Guard) : op ≠ .lock g := by
  rintro rfl
  cases hg

theorem Good.rely {capacity : ResourceLimits} {other : Nat} (h : Good capacity other w w')
    (hne : pid ≠ other) :
    Rely capacity pid w w' :=
  ⟨fun _ => h.sound, h.others pid hne⟩

/-- A gentle call leaves alone what its own request counts on: another request could have made
it. -/
theorem Outcome.gentle {r : Ans op} (ho : Outcome a pid w op r w') (hg : gentle op = true)
    (h : Sound a.capacity w) : Rely a.capacity pid w w' := by
  have hgood : ∀ answer, Rely a.capacity pid w (effect a pid op answer w).2 := by
    intro answer
    rw [effect_gentle hg pid (pid + 1)]
    exact Good.rely (effect_good h (gentle_pre hg _ w) fun g he => absurd he (gentle_lock hg g))
      (by omega)
  cases ho with
  | done op answer hfree | unreported op answer e hfailure => exact hgood answer
  | refused g e => cases hg
  | lost op e hfailure => exact Rely.refl _ pid w

theorem Walks.mono {x : Routine α} {Q R : Except Fault α → World → Prop} (h : Walks a pid x Q w)
    (hqr : ∀ r w, Q r w → R r w) : Walks a pid x R w :=
  Among.mono h fun r _ w => hqr r w

variable {Q : Except Fault β → World → Prop} {body : Routine α}

theorem Walks.bind {x : Routine α} {f : α → Routine β} {R : Except Fault α → World → Prop}
    (h : Walks a pid x R w) (hok : ∀ r w, R (.ok r) w → Walks a pid (f r) Q w)
    (herror : ∀ e w, R (.error e) w → Q (.error e) w) : Walks a pid (x >>= f) Q w :=
  Among.bind h (fun r _ w => hok r w) fun e _ w => herror e w

/-- An answer is taken, or its error ends the walk. -/
theorem walks_ofExcept {r : Except Fault α} {f : α → Routine β}
    (hok : ∀ x, r = .ok x → Walks a pid (f x) Q w) (herror : ∀ e, Q (.error e) w) :
    Walks a pid (Task.ofExcept r >>= f) Q w := by
  cases r with
  | ok x => exact hok x rfl
  | error e => exact herror e

theorem walks_ite {c : Prop} [Decidable c] {x y : Routine α} {Q : Except Fault α → World → Prop}
    (hx : c → Walks a pid x Q w) (hy : ¬c → Walks a pid y Q w) :
    Walks a pid (if c then x else y) Q w := by
  split
  · next h => exact hx h
  · next h => exact hy h

/-- **The rule of a call.** -/
theorem walks_call {f : Ans op → Routine β} (hA : Fact a pid A) (h : A w)
    (hpre : ∀ v, A v → Pre pid op v)
    (hnext : ∀ v r v', A v → Outcome a pid v op r v' → Sound a.capacity v' →
      Walks a pid (f r) Q v') :
    Walks a pid (Task.call op >>= f) Q w := by
  refine among_call_bind A h hA.stable hpre fun v r v' hv ho => ?_
  exact hnext v r v' hv ho (ho.good (hA.sound v hv) (hpre v hv)).sound

/-- **The rule of a gentle call.** The fact holds before and after. -/
theorem walks_gentle {f : Ans op → Routine β} (hA : Fact a pid A) (hg : gentle op = true) (h : A w)
    (hnext : ∀ v r v', A v → A v' → Outcome a pid v op r v' → Walks a pid (f r) Q v') :
    Walks a pid (Task.call op >>= f) Q w :=
  walks_call hA h (fun v _ => gentle_pre hg pid v) fun v r v' hv ho _ =>
    hnext v r v' hv (hA.stable v v' (ho.gentle hg (hA.sound v hv)) hv) ho

/-! ### Parts -/

theorem setAside_walks {cause : Fault} (hA : Fact a pid A) (h : A w) :
    Walks a pid (setAside id cause : Routine α) (fun r w => A w ∧ ∃ e, r = .error e) w := by
  refine walks_gentle hA rfl h fun _ r v _ hv _ => ?_
  cases r with
  | ok _ => exact ⟨hv, cause, rfl⟩
  | error _ => exact ⟨hv, uncertain, rfl⟩

/-- A call that answers no failure took place. -/
theorem Outcome.took {r : Ans op} (ho : Outcome a pid w op r w') (hl : ∀ g, op ≠ .lock g)
    (hf : failure op ≠ some r) :
    ∃ answer, r = (effect a pid op answer w).1 ∧ w' = (effect a pid op answer w).2 := by
  cases ho with
  | done op answer hfree => exact ⟨answer, rfl, rfl⟩
  | refused g e => exact absurd rfl (hl g)
  | lost op e hfailure | unreported op answer e hfailure => exact absurd hfailure hf

/-- What a read of a row gives. -/
theorem Outcome.record_ok
    (h : Outcome a pid w (.record id allowStale) (.ok x) w') :
    w' = w ∧ record w.ledger id allowStale = .ok x := by
  obtain ⟨_, hr, hw⟩ := h.took nofun nofun
  exact ⟨hw, hr.symm⟩

/-- A row that was read under the guard and is neither released nor absent. -/
theorem Held.ready (h : Held a pid id w) (hx : record w.ledger id allowStale = .ok x)
    (hs : x.state ≠ .released) (ha : x.executorAbsent = false) : Ready a pid id w := by
  refine ⟨h, fun y hy hid => ?_⟩
  obtain rfl := h.1.row_eq hx hy hid
  exact ⟨hs, ha⟩

/-- A row that was read and is absent. -/
theorem Sound.absent_confirmed (h : Sound a.capacity w)
    (hx : record w.ledger id allowStale = .ok x) (ha : x.executorAbsent = true) :
    id ∈ w.confirmed := by
  obtain ⟨hmem, hid⟩ := Table.get_mem (record_ok hx)
  exact hid ▸ (h.absent x hmem ha).1

theorem confirms_mem : id ∈ (confirms id true w).confirmed := List.mem_cons_self

theorem inspect_walks (hA : Fact a pid A) (h : A w) :
    Walks a pid (inspect id) (fun r w => A w ∧ ∀ state, r = .ok (true, state) →
      id ∈ w.confirmed) w := by
  refine walks_gentle hA rfl h fun v r v' _ hv' ho => ?_
  refine walks_ofExcept (fun x hx => ?_) fun e => ⟨hv', nofun⟩
  subst hx
  obtain ⟨rfl, hrow⟩ := ho.record_ok
  cases ha : x.executorAbsent with
  | true => exact ⟨hv', fun _ _ => (hA.sound _ hv').absent_confirmed hrow ha⟩
  | false =>
    refine walks_gentle hA rfl hv' fun v r v' _ hv' ho => ?_
    cases r with
    | ok observed =>
      refine ⟨hv', fun state hr => ?_⟩
      obtain ⟨answer, hanswer, rfl⟩ := ho.took nofun nofun
      have ht : observed.terminationConfirmed = true := congrArg Prod.fst (Except.ok.inj hr)
      rw [show answer = .ok observed from hanswer.symm]
      show id ∈ (confirms id observed.terminationConfirmed v).confirmed
      rw [ht]
      exact confirms_mem
    | error e =>
      refine walks_ite (fun _ => ⟨hv', nofun⟩) fun _ => walks_ite (fun _ => ?_) fun _ =>
        ⟨hv', nofun⟩
      refine (setAside_walks hA hv').mono fun r w hr => ⟨hr.1, fun state hok => ?_⟩
      obtain ⟨e, he⟩ := hr.2
      exact absurd (he.symm.trans hok) nofun

/-- The part ends, and what it counted on still holds. -/
theorem setAside_keeps {cause : Fault} (hA : Fact a pid A) (h : A w) :
    Walks a pid (setAside id cause : Routine α) (fun _ w => A w) w :=
  (setAside_walks hA h).mono fun _ _ hr => hr.1

theorem settle_walks {absent : Bool} (h : Ready a pid id w) (hc : id ∈ w.confirmed) :
    Safe a pid (settle id absent) w := by
  have hA : Fact a pid fun w => Ready a pid id w ∧ id ∈ w.confirmed :=
    ⟨fun v v' hr hv => ⟨fact_ready.stable v v' hr hv.1, hr.undisturbed.confirmed id hv.1.1.2 hv.2⟩,
      fun v hv => hv.1.1.1⟩
  refine walks_call hA ⟨h, hc⟩ (fun v hv => ⟨hv.1.1.2, hv.1.2, hv.2⟩) fun v r v' _ _ hs => ?_
  cases r with
  | ok _ => exact hs
  | error _ => exact setAside_keeps fact_sound hs

/-- The mark that an execution is being stopped leaves it as it was found. -/
theorem Outcome.setStopping_ready {r : Except Fault Unit}
    (ho : Outcome a pid w (.setStopping id) r w') (h : Ready a pid id w) : Ready a pid id w' := by
  have hgood : ∀ answer, Rely a.capacity pid w (effect a pid (.setStopping id) answer w).2 :=
      fun answer =>
    Good.rely (good_setStopping h.1.1 fun x hx hid => (h.2 x hx hid).1)
      (Nat.ne_of_lt (Nat.lt_succ_self pid))
  cases ho with
  | done _ answer _ | unreported _ answer e _ => exact fact_ready.stable _ _ (hgood answer) h
  | lost _ e _ => exact h

theorem stop_walks (h : Held a pid id w) : Safe a pid (stop id) w := by
  refine walks_gentle fact_held rfl h fun v r v' _ hv' ho => ?_
  refine walks_ofExcept (fun x hx => ?_) fun e => hv'.1
  subst hx
  obtain ⟨rfl, hrow⟩ := ho.record_ok
  refine walks_ite (fun _ => ?_) fun hlive => ?_
  · exact (inspect_walks fact_held hv').bind (fun _ w hw => hw.1.1) fun _ w hw => hw.1.1
  · simp only [not_or, Bool.not_eq_true] at hlive
    have hready := hv'.ready hrow hlive.1 hlive.2
    refine walks_call fact_ready hready (fun v hv => ⟨hv.1.2, hv.2⟩) fun v r v' hv ho _ => ?_
    have hready := ho.setStopping_ready hv
    refine walks_ofExcept (fun _ _ => ?_) fun e => hready.1.1
    refine walks_gentle fact_ready rfl hready fun v r v' _ hv' ho => ?_
    cases r with
    | ok observed =>
      obtain ⟨answer, hanswer, rfl⟩ := ho.took nofun nofun
      refine walks_ite (fun hended => settle_walks hv' ?_) fun _ =>
        setAside_keeps fact_sound hv'.1.1
      rw [show answer = .ok observed from hanswer.symm]
      show id ∈ (confirms id observed.terminationConfirmed v).confirmed
      rw [hended]
      exact confirms_mem
    | error e =>
      refine walks_ite (fun _ => ?_) fun _ => setAside_keeps fact_sound hv'.1.1
      -- The backend has never reserved the execution, which it has to prove.
      refine walks_gentle fact_ready rfl hv' fun v r v' _ hv' ho => ?_
      match r with
      | .ok true =>
        obtain ⟨answer, hanswer, rfl⟩ := ho.took nofun nofun
        refine settle_walks hv' ?_
        rw [show answer = .ok true from hanswer.symm]
        exact confirms_mem
      | .ok false | .error e => exact setAside_keeps fact_sound hv'.1.1

theorem collect_walks (hA : Fact a pid A) (h : A w) :
    Walks a pid (collect id) (fun _ w => A w) w := by
  refine walks_gentle hA rfl h fun v r v' _ hv' ho => ?_
  refine walks_ofExcept (fun x _ => ?_) fun e => hv'
  refine walks_ite (fun _ => hv') fun _ => ?_
  have hended : Walks a pid (if x.stopped then pure true else do
      let r ← inspect id
      pure r.1) (fun _ w => A w) v' :=
    walks_ite (fun _ => hv') fun _ => (inspect_walks hA hv').bind (fun _ w hw => hw.1)
      fun _ w hw => hw.1
  refine hended.bind (fun ended w hw => ?_) fun _ _ hw => hw
  refine walks_ite (fun _ => hw) fun _ => ?_
  refine walks_gentle hA rfl hw fun v r v' _ hv' ho => ?_
  refine walks_ofExcept (fun sizes _ => ?_) fun e => hv'
  refine walks_ite (fun _ => hv') fun _ => ?_
  refine walks_gentle hA rfl hv' fun v r v' _ hv' ho => ?_
  exact hv'

/-! ### Guards -/

theorem outcome_walks {x : Routine α} {Q : World → Prop} (h : Walks a pid x (fun _ w => Q w) w) :
    Walks a pid (Task.outcome x) (fun r w => Q w ∧ ∃ y, r = .ok y) w :=
  (among_outcome x).mpr (Among.mono h fun r _ _ hr => ⟨hr, r, rfl⟩)

theorem Outcome.lock_held {g : Guard} {r : Except Fault Unit} (ho : Outcome a pid w (.lock g) r w')
    (hr : r = .ok ()) : (g, pid) ∈ w'.held := by
  cases ho with
  | done _ answer _ => exact List.mem_cons_self
  | refused _ e => cases hr
  | lost _ e hfailure | unreported _ answer e hfailure => cases hfailure

theorem guarded_walks {g : Guard} (h : Sound a.capacity w)
    (hbody : ∀ w, Sound a.capacity w → (g, pid) ∈ w.held → Safe a pid body w) :
    Safe a pid (guarded g body) w := by
  refine walks_call fact_sound h (fun _ _ => trivial) fun v r v' _ ho hs => ?_
  refine walks_ofExcept (fun _ hr => ?_) fun _ => hs
  subst hr
  refine (outcome_walks (hbody v' hs (ho.lock_held rfl))).bind (fun r w hw => ?_) fun e w hw => hw.1
  refine walks_call fact_sound hw.1 (fun _ _ => trivial) fun v u v' _ _ hs => ?_
  exact hs

theorem withOperation_walks (h : Sound a.capacity w)
    (hbody : ∀ w, Held a pid id w → Safe a pid body w) :
    Safe a pid (withOperation id body) w :=
  guarded_walks h fun w hs hheld => hbody w ⟨hs, hheld⟩

theorem withComponent_walks (h : Sound a.capacity w)
    (hbody : ∀ w, Sound a.capacity w → Safe a pid body w) :
    Safe a pid (withComponent id body) w :=
  guarded_walks h fun w hs _ => hbody w hs

/-! ### Methods -/

theorem reserve_walks {spec : Spec} (h : Sound a.capacity w) : Safe a pid (reserve a spec) w := by
  refine walks_ite (fun _ => h) fun _ => walks_ite (fun _ => h) fun _ => ?_
  refine walks_gentle fact_sound rfl h fun v r v' _ hv' _ => ?_
  refine walks_ite (fun _ => hv') fun _ => ?_
  refine withComponent_walks hv' fun w hw => withOperation_walks hw fun w hw => ?_
  refine walks_gentle fact_held rfl hw fun v r v' _ hv' _ => ?_
  refine walks_ofExcept (fun _ _ => ?_) fun _ => hv'.1
  refine walks_gentle fact_held rfl hv' fun v r v' _ hv' _ => ?_
  refine walks_ofExcept (fun opened _ => ?_) fun _ => hv'.1
  cases opened with
  | settled state => exact hv'.1
  | pending =>
    refine walks_gentle fact_held rfl hv' fun v r v' _ hv' _ => ?_
    cases r with
    | error e => exact setAside_keeps fact_sound hv'.1
    | ok reservation =>
      refine walks_ite (fun _ => setAside_keeps fact_sound hv'.1) fun _ => ?_
      refine walks_gentle fact_held rfl hv' fun v r v' _ hv' _ => ?_
      cases r with
      | error e => exact setAside_keeps fact_sound hv'.1
      | ok _ => exact hv'.1

/-- `Start` has read the row, and it may be started. -/
theorem Outcome.startOpen_ready (ho : Outcome a pid w (.startOpen id) (.ok ()) w')
    (h : Held a pid id w) (h' : Held a pid id w') : Ready a pid id w' := by
  obtain ⟨answer, hr, rfl⟩ := ho.took nofun nofun
  cases hopen : startOpen w.clocks id w.ledger with
  | error e =>
    rw [show (effect a pid (.startOpen id) answer w).1 = .error e from congrArg
      (fun r => (write w r).1) hopen] at hr
    cases hr
  | ok l =>
    rw [show (effect a pid (.startOpen id) answer w).2 = { w with ledger := l } from
      congrArg (fun r => (write w r).2) hopen] at h' ⊢
    refine ⟨h', fun y hy hid => ?_⟩
    obtain ⟨x, hx, hstate, rfl⟩ := startOpen_ok hopen
    rw [updateExecution_rows] at hy
    obtain ⟨z, hz, rfl⟩ := List.mem_map.mp hy
    unfold updated at hid ⊢
    split at hid
    · next hz' =>
      obtain rfl := h.1.row_eq hx hz hz'
      rw [if_pos hz']
      exact ⟨nofun, Bool.eq_false_iff.mpr fun ha => hstate (h.1.absent z hz ha).2⟩
    · next hz' => exact absurd hid hz'

theorem Outcome.startClose_holds {state : Started} {r : Except Fault Bool}
    (ho : Outcome a pid w (.startClose id state) r w') (h : Holds w pid id) : Holds w' pid id := by
  have heffect : ∀ answer, Holds (effect a pid (.startClose id state) answer w).2 pid id := by
    intro answer
    show Holds (transact w _).2 pid id
    unfold transact
    split <;> exact h
  cases ho with
  | done _ answer _ | unreported _ answer e _ => exact heffect answer
  | lost _ e _ => exact h

theorem start_walks (h : Sound a.capacity w) : Safe a pid (start id) w := by
  refine withOperation_walks h fun w hw => ?_
  refine walks_gentle fact_held rfl hw fun v r v' hv hv' ho => ?_
  refine walks_ofExcept (fun _ hr => ?_) fun _ => hv'.1
  subst hr
  have hready := ho.startOpen_ready hv hv'
  refine walks_call fact_ready hready (fun v hv => ⟨hv.1.2, hv.2⟩) fun v r v' hv ho hs => ?_
  cases r with
  | error e => exact setAside_keeps fact_sound hs
  | ok state =>
    have hready : Ready a pid id v' := by
      obtain ⟨answer, -, rfl⟩ := ho.took nofun nofun
      exact ⟨⟨hs, hv.1.2⟩, hv.2⟩
    refine walks_call fact_ready hready (fun v hv => ⟨hv.1.2, hv.2⟩) fun v r v' hv ho hs => ?_
    cases r with
    | error _ => exact setAside_keeps fact_sound hs
    | ok valid =>
      have hheld : Held a pid id v' := ⟨hs, ho.startClose_holds hv.1.2⟩
      refine walks_ite (fun _ => hs) fun _ => ?_
      refine (outcome_walks (stop_walks hheld)).bind (fun r w hw => ?_) fun e w hw => hw.1
      cases r with
      | error e => exact setAside_keeps fact_sound hw.1
      | ok _ => exact hw.1

/-- The backend confirms, unless the executor is absent, before the row is written. -/
theorem confirmed_walks {absent : Bool} {ask : Routine (Except Fault Bool)}
    {k : Ans op → Routine Unit} (hA : Fact a pid A)
    (hask : ∀ w (f : Except Fault Bool → Routine Unit), A w → (∀ r w, A w → Safe a pid (f r) w) →
      Safe a pid (ask >>= f) w)
    (hpre : ∀ v, A v → Pre pid op v) (hk : ∀ r w, Sound a.capacity w → Safe a pid (k r) w)
    (h : A w) :
    Safe a pid (do
      if absent = false then
        let r ← ask
        let done ← Task.ofExcept r
        if done = false then Task.raise uncertain else pure ()
      let r ← Task.call op
      k r) w := by
  have hset : ∀ w, A w → Safe a pid (Task.call op >>= k) w := fun w hw =>
    walks_call hA hw hpre fun _ r v' _ _ hs => hk r v' hs
  refine walks_ite (fun _ => hask w _ h fun r w hw => ?_) fun _ => hset w h
  refine walks_ofExcept (fun done _ => ?_) fun _ => hA.sound w hw
  exact walks_ite (fun _ => hA.sound w hw) fun _ => hset w hw

theorem release_walks (h : Sound a.capacity w) : Safe a pid (release id) w := by
  refine withOperation_walks h fun w hw => ?_
  refine walks_gentle fact_held rfl hw fun v r v' hv hv' ho => ?_
  refine walks_ofExcept (fun x _ => ?_) fun _ => hv'.1
  refine walks_ite (fun _ => hv'.1) fun _ => ?_
  refine (inspect_walks fact_held hv').bind (fun r w hw => ?_) fun _ _ hw => hw.1.1
  obtain ⟨ended, state⟩ := r
  refine walks_ite (fun _ => hw.1.1) fun hended => ?_
  have hproven : Proven a pid id w := ⟨hw.1, hw.2 state (by rw [Bool.not_eq_false _ |>.mp hended])⟩
  -- From here on the termination stays confirmed, as nobody else can start the execution.
  refine walks_ite (fun _ => ?_) fun _ => (collect_walks fact_proven hproven).bind
    (fun _ w hw => ?_)
    fun _ w hw => hw.1.1
  all_goals
    refine confirmed_walks fact_proven (fun w f hw hf => ?_) (fun v hv => ⟨hv.1.2, hv.2⟩)
      (fun r w hs => ?_) ‹_›
    · exact walks_gentle fact_proven rfl hw fun _ r v' _ hv' _ => hf r v' hv'
    · cases r <;> exact hs

theorem purge_walks {auxiliaryDeleted : Bool} (h : Sound a.capacity w) :
    Safe a pid (purge id auxiliaryDeleted) w := by
  refine withComponent_walks h fun w hw => withOperation_walks hw fun w hw => ?_
  refine walks_gentle fact_sound rfl hw.1 fun v r v' hv hv' ho => ?_
  refine walks_ofExcept (fun row _ => ?_) fun _ => hv'
  refine walks_ite (fun _ => hv') fun _ => walks_ite (fun _ => hv') fun _ =>
    walks_ite (fun _ => hv') fun _ => ?_
  refine walks_ite (fun _ => walks_gentle fact_sound rfl hv' fun v r v' _ hv' _ =>
    walks_ofExcept (fun allowed _ => walks_ite (fun _ => hv') fun _ => ?_) fun _ => hv') fun _ => ?_
  all_goals
    refine confirmed_walks fact_sound (fun w f hw hf => ?_) (fun v _ => gentle_pre rfl pid v)
      (fun r w hs => ?_) ‹_›
    · exact walks_gentle fact_sound rfl hw fun _ r v' _ hv' _ => hf r v' hv'
    · cases r <;> exact hs

theorem watchRow_walks (h : Sound a.capacity w) : Safe a pid (watchRow x) w := by
  refine walks_gentle fact_sound rfl h fun v r v' _ hv' _ => ?_
  refine walks_ite (fun _ => hv') fun _ => ?_
  refine (outcome_walks (Q := Sound a.capacity) (withOperation_walks hv' fun w hw => ?_)).bind
    (fun r w hw => ?_) fun e w hw => hw.1
  · refine walks_gentle fact_held rfl hw fun v r v' _ hv' _ => ?_
    refine walks_ofExcept (fun claimed _ => ?_) fun _ => hv'.1
    exact walks_ite (fun _ => stop_walks hv') fun _ => hv'.1
  · cases r with
    | ok _ => exact hw.1
    | error e => exact walks_gentle fact_sound rfl hw.1 fun _ _ _ _ hv' _ => hv'

theorem watchRows_walks (rows : List Execution) (h : Sound a.capacity w) :
    Safe a pid (watchRows rows) w := by
  induction rows generalizing w with
  | nil => exact h
  | cons x rest ih => exact (watchRow_walks h).bind (fun _ w hw => ih hw) fun _ w hw => hw

theorem routine_walks (request : Request) (h : Sound a.capacity w) :
    Safe a pid (request.routine a) w := by
  cases request with
  | reserve spec => exact reserve_walks h
  | start id => exact start_walks h
  | stop id => exact withOperation_walks h fun w hw => stop_walks hw
  | inspect id => exact (inspect_walks fact_sound h).bind (fun _ w hw => hw.1) fun _ w hw => hw.1
  | renewLease id nanoseconds =>
    exact walks_ite (fun _ => h) fun _ => walks_gentle fact_sound rfl h fun _ _ _ _ hv' _ => hv'
  | collect id =>
    exact withOperation_walks h fun w hw => (collect_walks fact_held hw).mono fun _ _ hw => hw.1
  | release id => exact release_walks h
  | purge id auxiliaryDeleted => exact purge_walks h
  | chargeAuxiliary id total shared => exact walks_gentle fact_sound rfl h fun _ _ _ _ hv' _ => hv'
  | watchdog =>
    refine walks_gentle fact_sound rfl h fun _ r _ _ hv' _ => ?_
    exact walks_ofExcept (fun rows _ => watchRows_walks rows hv') fun _ => hv'

end

end Hf2l.Node
