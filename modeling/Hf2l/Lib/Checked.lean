import Mathlib.Data.List.Basic

/-!
# `Hf2l.Lib.Checked`: computations that returned

Inversion rules for `Except`: what is known of the parts of a computation whose result is
`.ok`. A `do` block that returned gives, by `bind_ok`, the value of each of its steps.
`foldlM_ok` is the invariant rule for a loop that may fail.

`Outcome F Q` speaks of both ends of a computation: a result has `Q`, an error has `F`. Its
rules are those of a pre- and postcondition: `Outcome.bind` for a sequence and
`Outcome.foldlM` for a loop, whose invariant sees what is left to do.
-/

set_option autoImplicit false

namespace Hf2l.Lib.Checked

variable {ε α β σ : Type}

variable {b : β} {x : Except ε α} {a : α}

/-- A sequence returned iff each step did. -/
theorem bind_ok {f : α → Except ε β} : (x >>= f) = .ok b ↔ ∃ a, x = .ok a ∧ f a = .ok b := by
  cases x with
  | error e | ok a => simp [bind, Except.bind]

theorem map_ok {f : α → β} : x.map f = .ok b ↔ ∃ a, x = .ok a ∧ f a = b := by
  cases x with
  | error e | ok a => simp [Except.map]

theorem mapError_ok {δ : Type} {f : ε → δ} : x.mapError f = .ok a ↔ x = .ok a := by
  cases x with
  | error e | ok a => simp [Except.mapError]

theorem pure_ok {b : α} : (pure a : Except ε α) = .ok b ↔ a = b := by
  simp [pure, Except.pure]

/-- The state of a result that comes with a value. -/
theorem fst_ok {b : α} {x y : β} (h : (.ok (a, x) : Except ε (α × β)) = .ok (b, y)) : a = b :=
  congrArg Prod.fst (Except.ok.inj h)

/-- A check in a `do` block, passed. -/
theorem guard_ok {c : Prop} [Decidable c] {e : ε} {f : α → Except ε β} {x : Except ε β} :
    (if c then throw e >>= f else x) = .ok b ↔ ¬ c ∧ x = .ok b := by
  by_cases h : c
  · simp [h, throw, throwThe, MonadExceptOf.throw, bind, Except.bind]
  · simp [h]

/-- A branch that fails was not taken. -/
theorem refuse_ok {c : Prop} [Decidable c] {e : ε} :
    (if c then throw e else x) = .ok a ↔ ¬ c ∧ x = .ok a := by
  by_cases h : c
  · simp [h, throw, throwThe, MonadExceptOf.throw]
  · simp [h]

/-- A step that returns nothing leaves no value to be named. -/
theorem exists_unit {p : Unit → Prop} : (∃ u, p u) ↔ p () := by
  constructor
  · rintro ⟨⟨⟩, h⟩
    exact h
  · exact fun h => ⟨(), h⟩

/-- **A `do` block that returned:** the rules for its steps and checks together. -/
theorem block_ok : (∀ {ε α β : Type} {x : Except ε α} {f : α → Except ε β} {b : β},
      (x >>= f) = .ok b ↔ ∃ a, x = .ok a ∧ f a = .ok b) ∧
    (∀ {p : Unit → Prop}, (∃ u, p u) ↔ p ()) ∧
      (∀ {ε α : Type} {a b : α}, (pure a : Except ε α) = .ok b ↔ a = b) ∧
    (∀ {α β : Type} {a c : α} {b d : β}, (a, b) = (c, d) ↔ a = c ∧ b = d) ∧
    ∀ {ε α β : Type} {c : Prop} [Decidable c] {e : ε} {f : α → Except ε β} {x : Except ε β} {b : β},
      (if c then throw e >>= f else x) = .ok b ↔ ¬ c ∧ x = .ok b :=
  ⟨bind_ok, exists_unit, pure_ok, Prod.mk.injEq _ _ _ _ ▸ Iff.rfl, guard_ok⟩

/-- A loop that returned: a property that every pass keeps holds at the end. -/
theorem foldlM_ok {f : σ → α → Except ε σ} (P : σ → Prop) (xs : List α)
    (hstep : ∀ s, ∀ x ∈ xs, ∀ s', P s → f s x = .ok s' → P s') {s s' : σ} (h : P s)
    (hr : xs.foldlM f s = .ok s') : P s' := by
  induction xs generalizing s with
  | nil =>
    rw [List.foldlM_nil, pure_ok] at hr
    exact hr ▸ h
  | cons x xs ih =>
    rw [List.foldlM_cons, bind_ok] at hr
    obtain ⟨m, hm, hr⟩ := hr
    have hm' : P m := hstep s x List.mem_cons_self m h hm
    exact ih (fun s y hy => hstep s y (List.mem_cons_of_mem x hy)) hm' hr

/-- The same for a property of the items that are done. -/
theorem foldlM_done {f : σ → α → Except ε σ} (P : List α → σ → Prop)
    (hstep : ∀ done s x s', P done s → f s x = .ok s' → P (done ++ [x]) s') {xs : List α} {s s' : σ}
    (h : P [] s) (hr : xs.foldlM f s = .ok s') : P xs s' := by
  suffices hall : ∀ done, P done s → P (done ++ xs) s' from hall [] h
  clear h
  induction xs generalizing s with
  | nil =>
    intro done h
    rw [List.foldlM_nil, pure_ok] at hr
    rwa [List.append_nil, ← hr]
  | cons x xs ih =>
    intro done h
    rw [List.foldlM_cons, bind_ok] at hr
    obtain ⟨m, hm, hr⟩ := hr
    rw [List.append_cons]
    exact ih hr _ (hstep done s x m h hm)

/-! ### Results and errors together -/

/-- A result has `Q`, and an error has `F`. -/
def Outcome (F : ε → Prop) (Q : α → Prop) : Except ε α → Prop
  | .ok a => Q a
  | .error e => F e

namespace Outcome

variable {F : ε → Prop} {Q : α → Prop}

theorem of_ok {x : Except ε α} (h : Outcome F Q x) {a : α} (hx : x = .ok a) : Q a := by
  subst hx
  exact h

theorem intro {x : Except ε α} (hok : ∀ a, x = .ok a → Q a) (herr : ∀ e, x = .error e → F e) :
    Outcome F Q x := by
  cases x with
  | ok a => exact hok a rfl
  | error e => exact herr e rfl

theorem bind {x : Except ε α} {f : α → Except ε β} {R : β → Prop} (h : Outcome F Q x)
    (hf : ∀ a, x = .ok a → Q a → Outcome F R (f a)) : Outcome F R (x >>= f) := by
  cases x with
  | ok a => exact hf a rfl h
  | error e => exact h

/-- The loop rule: `P` holds of what is left to do and of the state. -/
theorem foldlM {f : σ → α → Except ε σ} (P : List α → σ → Prop)
    (hstep : ∀ x xs s, P (x :: xs) s → Outcome F (P xs) (f s x)) {xs : List α} {s : σ}
    (h : P xs s) :
    Outcome F (P []) (xs.foldlM f s) := by
  induction xs generalizing s with
  | nil => exact h
  | cons x xs ih =>
    rw [List.foldlM_cons]
    exact (hstep x xs s h).bind fun m _ hm => ih hm

end Outcome

end Hf2l.Lib.Checked
