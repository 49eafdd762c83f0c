import Hf2l.Node.Guards

/-!
# `Hf2l.Node.Safety`: admission and fencing on a node

What holds after every run of a node, whatever requests are made, in whatever order their calls
interleave, and wherever the agent dies or the node boots again (`admission_and_fencing`).

The invariant of the system, `Placed`, says that the world is sound and that what is left of every
request under way is still guarded. One more walk through `Start`, over nothing but its closing
transaction, shows what its success means.
-/

set_option autoImplicit false

namespace Hf2l.Node

open Lib Lib.Checked Lib.Process Lib.Process.Task

/-! ### The closing transaction of `Start` -/

/-- A request of `Start` that goes on, as its `closing` sees it. -/
def Closes : (op : Op) → Option Bool → Ans op → Option Bool → Prop
  | .startClose _ _, _, r, closing' => r = .ok true → closing' = some true
  | _, closing, _, closing' => closing' = closing

/-- The walk of a request that only looks at its closing transaction. -/
def Settles {α : Type} (x : Routine α) (Q : Except Fault α → Option Bool → Prop)
    (closing : Option Bool) : Prop :=
  Among Eq (fun _ _ => True) Closes x (fun r _ closing => Q r closing) () closing

/-- A success of `Start` comes after a closing transaction that found the lease valid. -/
def Succeeds (r : Except Fault Unit) (closing : Option Bool) : Prop :=
  r = .ok () → closing = some true

section
variable {α β : Type} {closing : Option Bool} {id : Identity}

theorem settles_call {op : Op} {f : Ans op → Routine β} {Q : Except Fault β → Option Bool → Prop}
    (h : ∀ r closing', Closes op closing r closing' → Settles (f r) Q closing') :
    Settles (Task.call op >>= f) Q closing := by
  refine (among_bind _ _).mpr ((among_call op).mpr ?_)
  rintro _ rfl
  exact ⟨trivial, h⟩

theorem settles_of_forall {x : Routine α} {Q : Except Fault α → Option Bool → Prop}
    (hQ : ∀ r closing, Q r closing) :
    Settles x Q closing := by
  unfold Settles Among
  exact Prog.guarded_of_forall (fun _ _ => trivial) (fun _ _ => hQ _ _) closing

theorem setAside_settles {cause : Fault} : Settles (setAside id cause) Succeeds closing := by
  refine settles_call fun r _ _ => ?_
  cases r <;> exact nofun

theorem startBody_settles : Settles (startBody id) Succeeds closing := by
  refine settles_call fun r _ _ => ?_
  cases r with
  | error e => exact nofun
  | ok _ =>
    refine settles_call fun r _ _ => ?_
    cases r with
    | error e => exact setAside_settles
    | ok state =>
      refine settles_call fun r closing' hclose => ?_
      match r with
      | .error e => exact setAside_settles
      | .ok true => exact fun _ => hclose rfl
      | .ok false =>
        -- Whatever becomes of the stop, `Start` raises.
        have hstop : Settles (Task.outcome (stop id)) (fun r _ => ∃ y, r = .ok y) closing' :=
          (among_outcome _).mpr (settles_of_forall fun r _ => ⟨r, rfl⟩)
        refine Among.bind hstop (fun r _ w _ => ?_) fun e _ w hr => absurd hr.choose_spec nofun
        cases r with
        | error e => exact setAside_settles
        | ok _ => exact nofun

theorem start_settles : Settles (start id) Succeeds closing := by
  refine settles_call fun taken _ _ => ?_
  cases taken with
  | error e => exact nofun
  | ok _ =>
    refine Among.bind (R := fun r _ closing => ∃ y, r = .ok y ∧ Succeeds y closing) ?_
      (fun r _ closing hr => ?_)
      fun e _ _ hr => absurd hr.choose_spec.1 nofun
    · exact (among_outcome _).mpr (Among.mono startBody_settles fun r _ _ hr => ⟨r, rfl, hr⟩)
    · obtain ⟨y, hy, hs⟩ := hr
      obtain rfl := Except.ok.inj hy
      refine settles_call fun _ closing' hclose => ?_
      obtain rfl : closing' = closing := hclose
      exact hs

end

variable {a : Agent}

/-- What a process sees of the lease is what its closing transaction answers. -/
theorem Outcome.closes {w w' : World} {op : Op} {r : Ans op} {p : Process}
    (ho : Outcome a p.pid w op r w') : Closes op p.closing r (p.observe w op) := by
  cases op with
  | startClose id state =>
    rintro rfl
    obtain ⟨answer, hr, -⟩ := ho.took nofun nofun
    replace hr : (transact w (startClose w.clocks id state.state w.ledger)).1 = .ok true := hr.symm
    cases hclose : startClose w.clocks id state.state w.ledger with
    | error e =>
      rw [hclose] at hr
      cases hr
    | ok al =>
      obtain ⟨valid, l⟩ := al
      rw [hclose] at hr
      obtain rfl : valid = true := Except.ok.inj hr
      simp only [startClose, block_ok] at hclose
      obtain ⟨x, hx, hvalid, -⟩ := hclose
      show some (leaseNow w id) = some true
      unfold leaseNow
      rw [Node.record_ok hx, Option.any_some, hvalid]
  | _ => rfl

/-! ### The system -/

/-- What is left of a request is guarded. -/
structure Process.Placed (a : Agent) (w : World) (p : Process) : Prop where
  guarded : p.program.Guarded (Rely a.capacity p.pid) (Pre p.pid)
    (fun op w r w' => Outcome a p.pid w op r w')
    (fun _ w => Sound a.capacity w) w
  settles : ∀ id, p.request = .start id →
    p.program.Guarded Eq (fun _ _ => True) Closes (fun r closing => Succeeds r.1 closing) p.closing

structure Placed (a : Agent) (s : State) : Prop where
  sound : Sound a.capacity s.world
  pids : Table.Keyed (·.pid) s.processes
  next : ∀ p ∈ s.processes, p.pid < s.next
  processes : ∀ p ∈ s.processes, p.Placed a s.world
  reports : ∀ r ∈ s.reports, r.2 = some true

theorem Process.Placed.stable {w w' : World} {p : Process} (h : p.Placed a w)
    (hr : Rely a.capacity p.pid w w') : p.Placed a w' :=
  ⟨h.guarded.stable (fun _ _ _ huv hvw => huv.trans hvw) (fun _ _ _ hvw hs => hvw.sound hs) hr,
    h.settles⟩

theorem placed_empty (a : Agent) : Placed a {} := by
  have hnone : ∀ {x : Execution} {P : Prop}, x ∈ ({} : World).ledger.executions → P :=
    fun hx => absurd hx List.not_mem_nil
  refine ⟨⟨⟨List.nodup_nil, List.nodup_nil, fun _ hx => hnone hx, ?_, ?_, ?_, fun _ hx => hnone hx,
    fun _ _ he => absurd he nofun, List.Pairwise.nil⟩, fun _ hx => hnone hx, fun _ hx => hnone hx,
      fun _ hx => hnone hx,
    List.nodup_nil⟩, List.nodup_nil, fun _ hp => absurd hp List.not_mem_nil,
      fun _ hp => absurd hp List.not_mem_nil,
    fun _ hr => absurd hr List.not_mem_nil⟩
  · exact Int.natCast_nonneg a.capacity.cpuMillis
  · exact Int.natCast_nonneg a.capacity.memoryBytes
  · exact Int.natCast_nonneg a.capacity.diskBytes

section
variable {a : Agent} {s : State}

/-- A new request. -/
theorem Placed.call (h : Placed a s) (request : Request) : Placed a (step a s (.call request)) := by
  refine ⟨h.sound, h.pids.concat fun p hp he => ?_, fun p hp => ?_, fun p hp => ?_, h.reports⟩
  · exact absurd he (Nat.ne_of_lt (h.next p hp))
  · rcases Table.mem_concat.mp hp with hp | rfl
    · exact Nat.lt_succ_of_lt (h.next p hp)
    · exact Nat.lt_succ_self s.next
  · rcases Table.mem_concat.mp hp with hp | rfl
    · exact h.processes p hp
    · refine ⟨routine_walks request h.sound, fun id hid => ?_⟩
      subst hid
      exact start_settles

variable {w : World}

/-- The requests that are left when one of them is gone, and the world has moved on without
disturbing them. -/
theorem Placed.without (h : Placed a s) (pid : Nat) (hs : Sound a.capacity w)
    (hrely : ∀ p ∈ s.processes, p.pid ≠ pid → Rely a.capacity p.pid s.world w)
    {reports : List (Identity × Option Bool)} (hreports : ∀ r ∈ reports, r.2 = some true) :
    Placed a { s with world := w, processes := s.drop pid, reports := reports } := by
  have hdrop : ∀ p ∈ s.drop pid, p ∈ s.processes ∧ p.pid ≠ pid := fun p hp => by
    obtain ⟨hp, hne⟩ := List.mem_filter.mp hp
    exact ⟨hp, of_decide_eq_true hne⟩
  refine ⟨hs, h.pids.filter _, fun p hp => h.next p (hdrop p hp).1, fun p hp => ?_, hreports⟩
  exact (h.processes p (hdrop p hp).1).stable (hrely p (hdrop p hp).1 (hdrop p hp).2)

/-- A request ends. -/
theorem Placed.finish (h : Placed a s) {p : Process} (hp : p ∈ s.processes) {r : Except Fault Unit}
    (hret : p.program = .ret (r, ())) :
    Placed a { s with processes := s.drop p.pid, reports := s.reports ++ p.report r } := by
  refine h.without p.pid h.sound (fun q _ _ => Rely.refl _ _ _) fun report hreport => ?_
  rcases List.mem_append.mp hreport with hreport | hreport
  · exact h.reports report hreport
  · unfold Process.report at hreport
    split at hreport
    · split at hreport
      · next id hid =>
        have hsettles := (h.processes p hp).settles id hid
        rw [hret] at hsettles
        rw [List.mem_singleton.mp hreport]
        exact hsettles rfl
      · cases hreport
    · cases hreport

/-- A request makes its next call. -/
theorem Placed.proceed (h : Placed a s) {p : Process} (hp : p ∈ s.processes) {op : Op}
    {next : Ans op → Prog Op Ans (Except Fault Unit × Unit)} (hcall : p.program = .call op next)
    {r : Ans op} (ho : Outcome a p.pid s.world op r w) :
    Good a.capacity p.pid s.world w ∧
      Placed a { s with world := w, processes := s.replace {
        p with program := next r, closing := p.observe s.world op } } := by
  have hplaced := h.processes p hp
  have hguarded := hplaced.guarded
  rw [hcall] at hguarded
  obtain ⟨hpre, hnext⟩ := hguarded.next (Rely.refl _ _)
  have hgood := ho.good h.sound hpre
  refine ⟨hgood, hgood.sound, h.pids.put _, fun q hq => ?_, fun q hq => ?_, h.reports⟩
  · rcases Table.of_mem_put hq with ⟨hq, -⟩ | rfl
    · exact h.next q hq
    · exact h.next p hp
  · rcases Table.of_mem_put hq with ⟨hq, hne⟩ | rfl
    · exact (h.processes q hq).stable (hgood.rely hne)
    · refine ⟨hnext r w ho, fun id hid => ?_⟩
      have hsettles := hplaced.settles id hid
      rw [hcall] at hsettles
      exact (hsettles p.closing rfl).2 r _ ho.closes

theorem dropGuards_good (pid : Nat) (h : Sound a.capacity w) :
    Good a.capacity pid w (dropGuards pid w) := by
  refine ⟨⟨h.accounts, h.released, h.absent, h.boots, h.guards.filter _⟩, Advances.refl w,
    fun other hne => ⟨fun id hh => ?_, fun _ _ hl => hl, fun _ _ hc => hc⟩⟩
  exact List.mem_filter.mpr ⟨hh, decide_eq_true hne⟩

/-- What one step keeps, and how the world moves on. -/
theorem step_placed (h : Placed a s) (action : Action) :
    Placed a (step a s action) ∧ Advances s.world (step a s action).world := by
  cases action with
  | call request => exact ⟨h.call request, Advances.refl _⟩
  | proceed pid answer trouble =>
    cases hget : Table.get (·.pid) pid s.processes with
    | none =>
      simp only [step, hget]
      exact ⟨h, Advances.refl _⟩
    | some p =>
      obtain ⟨hp, rfl⟩ := Table.get_mem hget
      cases hprogram : p.program with
      | ret result =>
        obtain ⟨r, _⟩ := result
        simp only [step, hget, hprogram]
        exact ⟨h.finish hp hprogram, Advances.refl _⟩
      | call op next =>
        simp only [step, hget, hprogram]
        cases hperform : perform a p.pid op (answer op) trouble s.world with
        | none => exact ⟨h, Advances.refl _⟩
        | some result =>
          obtain ⟨r, w⟩ := result
          obtain ⟨hgood, hplaced⟩ := h.proceed hp hprogram (perform_outcome hperform)
          exact ⟨hplaced, hgood.advances⟩
  | tick elapsed wallClock =>
    have hsound : Sound a.capacity (step a s (.tick elapsed wallClock)).world :=
      ⟨h.sound.accounts, h.sound.released, h.sound.absent, h.sound.boots, h.sound.guards⟩
    refine ⟨⟨hsound, h.pids, h.next, fun p hp => (h.processes p hp).stable ?_, h.reports⟩,
      fun x hx => ?_⟩
    · exact ⟨fun _ => hsound, fun _ hh => hh, fun _ _ hl => hl, fun _ _ hc => hc⟩
    · refine ⟨x, hx, rfl, fun hs => hs, fun he => he.imp (fun hb => hb) fun hl => ?_⟩
      show x.leaseUntil ≤ s.world.clocks.clock + elapsed
      omega
  | kill pid =>
    have hgood := dropGuards_good pid h.sound
    exact ⟨h.without pid hgood.sound (fun p _ hne => hgood.rely hne) h.reports, hgood.advances⟩
  | reboot clock wallClock =>
    refine ⟨⟨⟨h.sound.accounts, h.sound.released, h.sound.absent, fun x hx => ?_, List.nodup_nil⟩,
      List.nodup_nil,
      fun _ hp => absurd hp List.not_mem_nil, fun _ hp => absurd hp List.not_mem_nil, h.reports⟩,
        fun x hx => ⟨x, hx,
      rfl, fun hs => hs, fun _ => Or.inl ?_⟩⟩
    · exact Nat.le_succ_of_le (h.sound.boots x hx)
    · exact Nat.ne_of_lt (Nat.lt_succ_of_le (h.sound.boots x hx))

/-- What a whole run keeps, and how the world moves on. -/
theorem run_placed (h : Placed a s) (run : List Action) :
    Placed a (run.foldl (step a) s) ∧ Advances s.world (run.foldl (step a) s).world := by
  induction run generalizing s with
  | nil => exact ⟨h, Advances.refl _⟩
  | cons action run ih =>
    obtain ⟨hstep, hadvances⟩ := step_placed h action
    obtain ⟨hrun, hadvances'⟩ := ih hstep
    exact ⟨hrun, hadvances.trans hadvances'⟩

end

/-! ### Admission and fencing -/

/-- What holds of a node at any time. Executions stand in the order in which they were accepted. -/
structure Disciplined (capacity : ResourceLimits) (s : State) : Prop where
  exclusive : ∀ x ∈ s.world.ledger.executions, ∀ y ∈ s.world.ledger.executions,
    x.state ≠ .released → y.state ≠ .released → x.id.component = y.id.component → x = y
  epochs : s.world.ledger.executions.Pairwise fun x y => x.id.component = y.id.component →
    x.id.epoch < y.id.epoch
  terminated : ∀ x ∈ s.world.ledger.executions, x.state = .released → x.id ∈ s.world.confirmed
  cpu : usedCpu s.world.ledger ≤ capacity.cpuMillis
  memory : usedMemory s.world.ledger ≤ capacity.memoryBytes
  storage : usedBytes s.world.ledger ≤ capacity.diskBytes
  closing : ∀ report ∈ s.reports, report.2 = some true

/-- What holds from one time of a node to a later one. -/
structure Continues (s s' : State) : Prop where
  fences : ∀ component epoch, fenceOf s.world.ledger component = some epoch →
    ∃ epoch', fenceOf s'.world.ledger component = some epoch' ∧ epoch ≤ epoch'
  absorbing : ∀ x ∈ s.world.ledger.executions, x.state = .released →
    ∃ y ∈ s'.world.ledger.executions, y.id = x.id ∧ y.state = .released
  expired : ∀ x ∈ s.world.ledger.executions, x.bootId ≠ s.world.clocks.bootId ∨
    x.leaseUntil ≤ s.world.clocks.clock → ∃ y ∈ s'.world.ledger.executions, y.id = x.id ∧
    leaseValid s'.world.clocks y = false ∧
    ∀ nanoseconds l, renew s'.world.clocks x.id nanoseconds s'.world.ledger ≠ .ok l

theorem Placed.disciplined {s : State} (h : Placed a s) : Disciplined a.capacity s := by
  refine ⟨fun x hx y hy hsx hsy hc => ?_, h.sound.accounts.epochs, h.sound.released,
    h.sound.accounts.cpu, h.sound.accounts.memory, h.sound.accounts.storage, h.reports⟩
  exact Table.Keyed.eq_of_key_eq h.sound.accounts.keyed hx hy
    (h.sound.accounts.exclusive x hx y hy (active_iff.mpr hsx) (active_iff.mpr hsy) hc)

theorem Placed.continues {s s' : State} (h : Placed a s) (h' : Placed a s')
    (hadvances : Advances s.world s'.world) :
    Continues s s' := by
  refine ⟨fun component epoch he => ?_, fun x hx hs => ?_, fun x hx he => ?_⟩
  · -- A fence is the epoch of an execution, which is still there.
    obtain ⟨x, hx, hcomponent, hepoch⟩ := h.sound.accounts.accepted component epoch he
    obtain ⟨y, hy, hxy⟩ := hadvances x hx
    obtain ⟨epoch', he', hle⟩ := h'.sound.accounts.fenced y hy
    rw [hxy.id, hcomponent] at he'
    rw [hxy.id, hepoch] at hle
    exact ⟨epoch', he', hle⟩
  · obtain ⟨y, hy, hxy⟩ := hadvances x hx
    exact ⟨y, hy, hxy.id, hxy.released hs⟩
  · obtain ⟨y, hy, hxy⟩ := hadvances x hx
    have hexpired := hxy.expired he
    have hinvalid : leaseValid s'.world.clocks y = false :=
      Bool.eq_false_iff.mpr fun hv => leaseValid_not_expired hv hexpired
    refine ⟨y, hy, hxy.id, hinvalid, fun nanoseconds l hr => ?_⟩
    simp only [renew, block_ok, not_or] at hr
    obtain ⟨z, hz, ⟨-, -, -, -, hvalid⟩, -⟩ := hr
    obtain rfl := h'.sound.row_eq hz hy hxy.id
    exact hvalid hinvalid

theorem admission_and_fencing (a : Agent) (run more : List Action) :
    Disciplined a.capacity (run.foldl (step a) {}) ∧
    Continues (run.foldl (step a) {}) ((run ++ more).foldl (step a) {}) := by
  obtain ⟨hrun, -⟩ := run_placed (placed_empty a) run
  obtain ⟨hmore, hadvances⟩ := run_placed hrun more
  rw [List.foldl_append]
  exact ⟨hrun.disciplined, hrun.continues hmore hadvances⟩

end Hf2l.Node
