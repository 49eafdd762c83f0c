import Mathlib.Data.List.Basic

/-!
# `Hf2l.Lib.Run`: runs of a deterministic system

A system is a function `step` from a state and an action to the next state, and a run is the
fold of `step` over a list of actions. `Always` says that a property holds in every state of a
run, the first and the last included; `Every` says that every step of a run meets a condition
on the state it starts in and its action.

`keeps` is the invariant rule. `always_iff_every` is the rule for a property that some steps
break: if a step from a good state leads to a good state exactly when it meets a condition,
then a run stays good exactly when all its steps meet the condition.
-/

set_option autoImplicit false

namespace Hf2l.Lib.Run

variable {σ α : Type} (step : σ → α → σ)

/-- The property holds in every state of the run. -/
def Always (P : σ → Prop) : σ → List α → Prop
  | s, [] => P s
  | s, a :: rest => P s ∧ Always P (step s a) rest

/-- Every step of the run meets the condition. -/
def Every (C : σ → α → Prop) : σ → List α → Prop
  | _, [] => True
  | s, a :: rest => C s a ∧ Every C (step s a) rest

instance Every.decidable {C : σ → α → Prop} [∀ s a, Decidable (C s a)] :
    (s : σ) → (run : List α) → Decidable (Every step C s run)
  | _, [] => inferInstanceAs (Decidable True)
  | s, a :: rest =>
    have : Decidable (Every step C (step s a) rest) := Every.decidable (step s a) rest
    inferInstanceAs (Decidable (_ ∧ _))

variable {step}

variable {C D : σ → α → Prop} {P J : σ → Prop} {run : List α} {s : σ}

/-- **The invariant rule.** What every step keeps, under a condition that every step meets,
holds at the end of a run. -/
theorem keeps (hstep : ∀ s a, P s → C s a → P (step s a))
    (h : P s) (hrun : Every step C s run) : P (run.foldl step s) := by
  induction run generalizing s with
  | nil => exact h
  | cons a rest ih => exact ih (hstep s a h hrun.1) hrun.2

theorem every_of_forall (h : ∀ s a, C s a) (s : σ) (run : List α) : Every step C s run := by
  induction run generalizing s with
  | nil => trivial
  | cons a rest ih => exact ⟨h s a, ih (step s a)⟩

theorem every_of_imp (h : ∀ s a, C s a → D s a) (hrun : Every step C s run) :
    Every step D s run := by
  induction run generalizing s with
  | nil => trivial
  | cons a rest ih => exact ⟨h s a hrun.1, ih hrun.2⟩

/-- A condition on the actions alone. -/
theorem every_of_mem {C : α → Prop} (h : ∀ a ∈ run, C a) (s : σ) :
    Every step (fun _ a => C a) s run := by
  induction run generalizing s with
  | nil => trivial
  | cons a rest ih =>
    exact ⟨h a List.mem_cons_self, ih (fun b hb => h b (List.mem_cons_of_mem a hb)) (step s a)⟩

/-- A condition that every step from a good state meets, if the steps keep the states good. -/
theorem every_of_keeps (hstep : ∀ s a, P s → C s a → P (step s a))
    (hD : ∀ s a, P s → C s a → D s a) (h : P s) (hrun : Every step C s run) :
    Every step D s run := by
  induction run generalizing s with
  | nil => trivial
  | cons a rest ih => exact ⟨hD s a h hrun.1, ih (hstep s a h hrun.1) hrun.2⟩

/-- What every step keeps holds at the end of a run. -/
theorem invariant (hstep : ∀ s a, P s → P (step s a)) (h : P s) (run : List α) :
    P (run.foldl step s) :=
  keeps (C := fun _ _ => True) (fun s a hs _ => hstep s a hs) h
    (every_of_forall (fun _ _ => trivial) s run)

/-- What every good state has holds all along a run, if the steps keep the states good. -/
theorem always_of_invariant (hstep : ∀ s a, J s → J (step s a)) (hP : ∀ s, J s → P s)
    (h : J s) (run : List α) : Always step P s run := by
  induction run generalizing s with
  | nil => exact hP s h
  | cons a rest ih => exact ⟨hP s h, ih (hstep s a h)⟩

/-- What every step from a good state does. -/
theorem Always.every (h : Always step P s run) (hD : ∀ s a, P s → D s a) : Every step D s run := by
  induction run generalizing s with
  | nil => trivial
  | cons a rest ih => exact ⟨hD s a h.1, ih h.2⟩

theorem every_of_invariant (hstep : ∀ s a, J s → J (step s a))
    (hD : ∀ s a, J s → D s a) (h : J s) (run : List α) : Every step D s run :=
  (always_of_invariant hstep (fun _ hs => hs) h run).every hD

theorem Always.last (h : Always step P s run) : P (run.foldl step s) := by
  induction run generalizing s with
  | nil => exact h
  | cons a rest ih => exact ih h.2

/-- **A property that some steps break.** `J` is an invariant of all steps, and from a good
state a step leads to a good state iff it meets `C`. -/
theorem always_iff_every (hJ : ∀ s a, J s → J (step s a))
    (hstep : ∀ s a, J s → P s → (P (step s a) ↔ C s a)) (hj : J s) (hp : P s) (run : List α) :
    Always step P s run ↔ Every step C s run := by
  induction run generalizing s with
  | nil => exact ⟨fun _ => trivial, fun _ => hp⟩
  | cons a rest ih =>
    constructor
    · rintro ⟨-, hrest⟩
      have hnext : P (step s a) := by
        cases rest with
        | nil => exact hrest
        | cons b rest => exact hrest.1
      exact ⟨(hstep s a hj hp).mp hnext, (ih (hJ s a hj) hnext).mp hrest⟩
    · rintro ⟨hc, hrest⟩
      have hnext := (hstep s a hj hp).mpr hc
      exact ⟨hp, (ih (hJ s a hj) hnext).mpr hrest⟩

end Hf2l.Lib.Run
