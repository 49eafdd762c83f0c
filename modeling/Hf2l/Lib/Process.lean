import Mathlib.Logic.Basic

/-!
# `Hf2l.Lib.Process`: programs that call their environment

A program makes calls, one after the other, and goes on with what the environment answers.
Between two calls nothing can be seen from outside, so a process that is stopped anywhere has
stopped at a call. `Safe` says what a program needs of the world: `Pre op` holds whenever it
calls `op`, for every answer to every call, and the result meets a postcondition. A world
changes at a call only (`effect`).

A `Task` is a program with a memory that may raise. The memory is kept when it raises, as it
is in an object whose method raises. `Meets` is `Safe` for tasks, with one rule per way to put
a task together.
-/

set_option autoImplicit false

namespace Hf2l.Lib.Process

/-! ### Programs -/

/-- A program: its result, or a call and how it goes on. -/
inductive Prog (Op : Type) (Ans : Op → Type) (α : Type) where
  | ret (value : α)
  | call (op : Op) (next : Ans op → Prog Op Ans α)

section
variable {Op : Type} {Ans : Op → Type} {α β W : Type}

def Prog.bind : Prog Op Ans α → (α → Prog Op Ans β) → Prog Op Ans β
  | .ret a, f => f a
  | .call op next, f => .call op fun a => (next a).bind f

variable (Pre : Op → W → Prop) (effect : (op : Op) → Ans op → W → W)

/-- Every call finds what it needs, and the result meets `Q`, whatever is answered. -/
def Prog.Safe : Prog Op Ans α → (α → W → Prop) → W → Prop
  | .ret a, Q, w => Q a w
  | .call op next, Q, w => Pre op w ∧ ∀ a, (next a).Safe Q (effect op a w)

variable {Pre effect}

theorem Prog.safe_bind (p : Prog Op Ans α) (f : α → Prog Op Ans β) (Q : β → W → Prop) (w : W) :
    (p.bind f).Safe Pre effect Q w ↔
      p.Safe Pre effect (fun a w => (f a).Safe Pre effect Q w) w := by
  induction p generalizing w with
  | ret a => exact Iff.rfl
  | call op next ih => exact and_congr_right fun _ => forall_congr' fun a => ih a _

theorem Prog.Safe.mono {p : Prog Op Ans α} {Q R : α → W → Prop} {w : W} (h : p.Safe Pre effect Q w)
    (hqr : ∀ a w, Q a w → R a w) : p.Safe Pre effect R w := by
  induction p generalizing w with
  | ret a => exact hqr a w h
  | call op next ih => exact ⟨h.1, fun a => ih a (h.2 a)⟩

end

/-! ### Tasks -/

/-- A program with a memory that may raise. -/
def Task (Op : Type) (Ans : Op → Type) (μ ε α : Type) := μ → Prog Op Ans (Except ε α × μ)

namespace Task

section
variable {Op : Type} {Ans : Op → Type} {μ ε α β W : Type}

/-- The next task, unless the last one has raised. -/
def andThen (f : α → Task Op Ans μ ε β) : Except ε α × μ → Prog Op Ans (Except ε β × μ)
  | (.ok a, m) => f a m
  | (.error e, m) => .ret (.error e, m)

instance : Monad (Task Op Ans μ ε) where
  pure a := fun m => .ret (.ok a, m)
  bind x f := fun m => (x m).bind (andThen f)

def raise (e : ε) : Task Op Ans μ ε α := fun m => .ret (.error e, m)

def memory : Task Op Ans μ ε μ := fun m => .ret (.ok m, m)

def modify (f : μ → μ) : Task Op Ans μ ε Unit := fun m => .ret (.ok (), f m)

def call (op : Op) : Task Op Ans μ ε (Ans op) := fun m => .call op fun a => .ret (.ok a, m)

def ofExcept (r : Except ε α) : Task Op Ans μ ε α := fun m => .ret (r, m)

/-- `except`: the handler gets what was raised, and the memory as it was then. -/
def handle (x : Task Op Ans μ ε α) (handler : ε → Task Op Ans μ ε α) : Task Op Ans μ ε α := fun m =>
  (x m).bind fun r =>
    match r with
    | (.ok a, m') => .ret (.ok a, m')
    | (.error e, m') => handler e m'

/-- The answer of a task, or what it raised, as a value. -/
def outcome (x : Task Op Ans μ ε α) : Task Op Ans μ ε (Except ε α) :=
  handle (do let a ← x; pure (.ok a)) fun e => pure (.error e)

variable (Pre : Op → W → Prop) (effect : (op : Op) → Ans op → W → W)

/-- The task is safe from this memory and this world, and it ends as `Q` says. -/
def Meets (x : Task Op Ans μ ε α) (Q : Except ε α → μ → W → Prop) (m : μ) (w : W) : Prop :=
  (x m).Safe Pre effect (fun r w => Q r.1 r.2 w) w

variable {Pre effect} {Q : Except ε α → μ → W → Prop} {m : μ} {w : W}

@[simp] theorem meets_call (op : Op) {Q : Except ε (Ans op) → μ → W → Prop} :
    Meets Pre effect (call op : Task Op Ans μ ε (Ans op)) Q m w ↔
      Pre op w ∧ ∀ a, Q (.ok a) m (effect op a w) := Iff.rfl

@[simp] theorem meets_bind (x : Task Op Ans μ ε α) (f : α → Task Op Ans μ ε β)
    {Q : Except ε β → μ → W → Prop} :
    Meets Pre effect (x >>= f) Q m w ↔
      Meets Pre effect x (fun r m w =>
        match r with
        | .ok a => Meets Pre effect (f a) Q m w
        | .error e => Q (.error e) m w) m w := by
  refine (Prog.safe_bind (x m) (andThen f) _ w).trans ?_
  unfold Meets
  have hnext : (fun r w => (andThen f r).Safe Pre effect (fun r w => Q r.1 r.2 w) w) =
      fun (r : Except ε α × μ) w =>
        (match r.1 with
          | .ok a => (f a r.2).Safe Pre effect (fun r w => Q r.1 r.2 w) w
          | .error e => Q (.error e) r.2 w) := by
    funext r w
    obtain ⟨r, m⟩ := r
    cases r <;> rfl
  rw [hnext]

@[simp] theorem meets_memory_bind (f : μ → Task Op Ans μ ε α) :
    Meets Pre effect (memory >>= f) Q m w ↔ Meets Pre effect (f m) Q m w := meets_bind memory f

@[simp] theorem meets_modify_bind (g : μ → μ) (f : Unit → Task Op Ans μ ε α) :
    Meets Pre effect (modify g >>= f) Q m w ↔ Meets Pre effect (f ()) Q (g m) w :=
      meets_bind (modify g) f

@[simp] theorem meets_handle (x : Task Op Ans μ ε α) (handler : ε → Task Op Ans μ ε α) :
    Meets Pre effect (handle x handler) Q m w ↔
      Meets Pre effect x (fun r m w =>
        match r with
        | .ok a => Q (.ok a) m w
        | .error e => Meets Pre effect (handler e) Q m w) m w := by
  refine (Prog.safe_bind (x m) _ _ w).trans ?_
  unfold Meets
  refine iff_of_eq (congrArg (fun R => Prog.Safe Pre effect (x m) R w) ?_)
  funext r w
  obtain ⟨r, m⟩ := r
  cases r <;> rfl

/-- **The rule of consequence.** -/
theorem Meets.mono {x : Task Op Ans μ ε α} {Q R : Except ε α → μ → W → Prop} {m : μ} {w : W}
    (h : Meets Pre effect x Q m w) (hqr : ∀ r m w, Q r m w → R r m w) : Meets Pre effect x R m w :=
  Prog.Safe.mono h fun r w => hqr r.1 r.2 w

end

end Task

end Hf2l.Lib.Process
