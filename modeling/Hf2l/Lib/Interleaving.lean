import Hf2l.Lib.Process

/-!
# `Hf2l.Lib.Interleaving`: programs that run among others

A program of `Process` makes its calls one after the other. Here other programs run at the same
time, so the world may change between two calls of a program. `rely` says how: it relates the
world a program has left to every world in which it may make its next call. `does` says what a
call may answer and what world it leaves.

`Guarded` says that a program finds `Pre op` whenever it calls `op`, whatever the others do and
whatever is answered, and that its result meets a postcondition. `Among` is `Guarded` for tasks.
A fact that survives `rely` can be carried from call to call (`among_call_bind`). A program that
is guarded stays so while the others move (`Guarded.stable`), and after its own call what is left
of it is guarded (`Guarded.next`): these two are what a system of many programs needs.
-/

set_option autoImplicit false

namespace Hf2l.Lib.Process

/-! ### Programs -/

section
variable {Op : Type} {Ans : Op → Type} {α β W : Type}
variable (rely : W → W → Prop) (Pre : Op → W → Prop) (does : (op : Op) → W → Ans op → W → Prop)

/-- Every call finds what it needs, and the result meets `Q`, whatever the others do in between. -/
def Prog.Guarded : Prog Op Ans α → (α → W → Prop) → W → Prop
  | .ret a, Q, w => Q a w
  | .call op next, Q, w => ∀ v, rely w v → Pre op v ∧ ∀ a v', does op v a v' → (next a).Guarded Q v'

variable {rely Pre does}

theorem Prog.guarded_bind (p : Prog Op Ans α) (f : α → Prog Op Ans β) (Q : β → W → Prop) (w : W) :
    (p.bind f).Guarded rely Pre does Q w ↔
      p.Guarded rely Pre does (fun a w => (f a).Guarded rely Pre does Q w) w := by
  induction p generalizing w with
  | ret a => exact Iff.rfl
  | call op next ih =>
    refine forall_congr' fun v => forall_congr' fun _ => and_congr_right fun _ => ?_
    exact forall_congr' fun a => forall_congr' fun v' => forall_congr' fun _ => ih a v'

variable {Q : α → W → Prop} {p : Prog Op Ans α}

theorem Prog.Guarded.mono {R : α → W → Prop} {w : W} (h : p.Guarded rely Pre does Q w)
    (hqr : ∀ a w, Q a w → R a w) : p.Guarded rely Pre does R w := by
  induction p generalizing w with
  | ret a => exact hqr a w h
  | call op next ih =>
    exact fun v hv => ⟨(h v hv).1, fun a v' hdoes => ih a ((h v hv).2 a v' hdoes)⟩

/-- Where calls need nothing, there is nothing to show for a postcondition that always holds. -/
theorem Prog.guarded_of_forall (hPre : ∀ op w, Pre op w) (hQ : ∀ a w, Q a w)
    (w : W) : p.Guarded rely Pre does Q w := by
  induction p generalizing w with
  | ret a => exact hQ a w
  | call op next ih => exact fun v _ => ⟨hPre op v, fun a v' _ => ih a v'⟩

/-- The others move, and the program is as well placed as before. -/
theorem Prog.Guarded.stable (htrans : ∀ u v w, rely u v → rely v w → rely u w)
    (hQ : ∀ a v w, rely v w → Q a v → Q a w) {v w : W} (h : p.Guarded rely Pre does Q v)
    (hvw : rely v w) : p.Guarded rely Pre does Q w := by
  cases p with
  | ret a => exact hQ a v w hvw h
  | call op next => exact fun u hu => h u (htrans v w u hvw hu)

/-- The program makes its call: it finds what it needs, and goes on as it should. -/
theorem Prog.Guarded.next (hrefl : ∀ w, rely w w) {op : Op} {next : Ans op → Prog Op Ans α}
    {w : W} (h : (Prog.call op next).Guarded rely Pre does Q w) :
    Pre op w ∧ ∀ a w', does op w a w' → (next a).Guarded rely Pre does Q w' :=
  h w (hrefl w)

end

/-! ### Tasks -/

namespace Task

section
variable {Op : Type} {Ans : Op → Type} {μ ε α β W : Type}
variable (rely : W → W → Prop) (Pre : Op → W → Prop) (does : (op : Op) → W → Ans op → W → Prop)

/-- The task is guarded from this memory and this world, and it ends as `Q` says. -/
def Among (x : Task Op Ans μ ε α) (Q : Except ε α → μ → W → Prop) (m : μ) (w : W) : Prop :=
  (x m).Guarded rely Pre does (fun r w => Q r.1 r.2 w) w

variable {rely Pre does} {Q : Except ε α → μ → W → Prop} {m : μ} {w : W}

theorem among_call (op : Op) {Q : Except ε (Ans op) → μ → W → Prop} :
    Among rely Pre does (call op : Task Op Ans μ ε (Ans op)) Q m w ↔
      ∀ v, rely w v → Pre op v ∧ ∀ a v', does op v a v' → Q (.ok a) m v' := Iff.rfl

theorem among_bind (x : Task Op Ans μ ε α) (f : α → Task Op Ans μ ε β)
    {Q : Except ε β → μ → W → Prop} :
    Among rely Pre does (x >>= f) Q m w ↔
      Among rely Pre does x (fun r m w =>
        match r with
        | .ok a => Among rely Pre does (f a) Q m w
        | .error e => Q (.error e) m w) m w := by
  refine (Prog.guarded_bind (x m) (andThen f) _ w).trans ?_
  unfold Among
  refine iff_of_eq (congrArg (fun R => Prog.Guarded rely Pre does (x m) R w) ?_)
  funext r w
  obtain ⟨r, m⟩ := r
  cases r <;> rfl

theorem among_handle (x : Task Op Ans μ ε α) (handler : ε → Task Op Ans μ ε α) :
    Among rely Pre does (handle x handler) Q m w ↔
      Among rely Pre does x (fun r m w =>
        match r with
        | .ok a => Q (.ok a) m w
        | .error e => Among rely Pre does (handler e) Q m w) m w := by
  refine (Prog.guarded_bind (x m) _ _ w).trans ?_
  unfold Among
  refine iff_of_eq (congrArg (fun R => Prog.Guarded rely Pre does (x m) R w) ?_)
  funext r w
  obtain ⟨r, m⟩ := r
  cases r <;> rfl

theorem among_outcome (x : Task Op Ans μ ε α) {Q : Except ε (Except ε α) → μ → W → Prop} :
    Among rely Pre does (outcome x) Q m w ↔
      Among rely Pre does x (fun r m w => Q (.ok r) m w) m w := by
  rw [outcome, among_handle, among_bind]
  refine iff_of_eq (congrArg (fun R => Among rely Pre does x R m w) ?_)
  funext r m w
  cases r <;> rfl

/-- **The rule of consequence.** -/
theorem Among.mono {x : Task Op Ans μ ε α} {Q R : Except ε α → μ → W → Prop} {m : μ} {w : W}
    (h : Among rely Pre does x Q m w) (hqr : ∀ r m w, Q r m w → R r m w) :
    Among rely Pre does x R m w :=
  Prog.Guarded.mono h fun r w => hqr r.1 r.2 w

/-- **The rule of sequence.** -/
theorem Among.bind {x : Task Op Ans μ ε α} {f : α → Task Op Ans μ ε β}
    {R : Except ε α → μ → W → Prop} {Q : Except ε β → μ → W → Prop} {m : μ} {w : W}
    (h : Among rely Pre does x R m w)
    (hok : ∀ a m w, R (.ok a) m w → Among rely Pre does (f a) Q m w)
    (herror : ∀ e m w, R (.error e) m w → Q (.error e) m w) :
    Among rely Pre does (x >>= f) Q m w := by
  rw [among_bind]
  refine h.mono fun r m w hr => ?_
  cases r with
  | ok a => exact hok a m w hr
  | error e => exact herror e m w hr

/-- **The rule of a call.** `A` survives what the others do and gives the call what it needs. -/
theorem among_call_bind {op : Op} {f : Ans op → Task Op Ans μ ε β} {Q : Except ε β → μ → W → Prop}
    (A : W → Prop) (hA : A w) (hrely : ∀ v v', rely v v' → A v → A v') (hpre : ∀ v, A v → Pre op v)
    (hnext : ∀ v a v', A v → does op v a v' → Among rely Pre does (f a) Q m v') :
    Among rely Pre does (call op >>= f) Q m w := by
  rw [among_bind, among_call]
  intro v hv
  have hAv : A v := hrely w v hv hA
  exact ⟨hpre v hAv, fun a v' hdoes => hnext v a v' hAv hdoes⟩

end

end Task

end Hf2l.Lib.Process
