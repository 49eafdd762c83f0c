import Hf2l.Node.Sound

/-!
# `Hf2l.Node.Calls`: what one call does to the world

Some calls keep the invariant only if they are made in the right place: a call that sets the state
of an execution needs the guard of the execution, and must not meet a released one. `Pre` says what
each call needs. `Outcome.good` says that a call that finds it keeps the invariant and does not
disturb the other requests. That the requests make their calls in the right places is shown in
`Guards`.
-/

set_option autoImplicit false

namespace Hf2l.Node

open Lib Lib.Checked

/-- What a request owes a call. -/
def Pre (pid : Nat) : Op → World → Prop
  | .startClose id _, w | .setStopping id, w | .backendStart id, w => Holds w pid id ∧ Live w id
  | .setStopped id _, w => Holds w pid id ∧ Live w id ∧ id ∈ w.confirmed
  | .setReleased id, w => Holds w pid id ∧ id ∈ w.confirmed
  | _, _ => True

section
variable {capacity : ResourceLimits} {pid : Nat} {w : World} {id : Identity}

/-! ### Rows that are rewritten -/

variable {x : Execution} {c : Clocks} {l l' : Ledger} {opened : Opened} {spec : Spec} {a : Agent}
  {op : Op} {w' : World}

theorem active_iff : x.active = true ↔ x.state ≠ .released := bne_iff_ne

/-- The state of a row that is not released is set. -/
theorem Rewrites.state {state : ExecutionState} (hx : x.state ≠ .released) (hs : state ≠ .released)
    (habsent : x.executorAbsent = true → x.id ∈ w.confirmed ∧ Ended state) :
    Rewrites w x { x with state := state } :=
  ⟨⟨rfl, rfl, rfl, fun _ => active_iff.mpr hx⟩, rfl, fun _ => rfl, fun hr => absurd hr hs, habsent⟩

/-- What is written is neither the state nor the lease of the row, nor its absence. -/
theorem Rewrites.aside (h : Sound capacity w) {y : Execution} (hx : x ∈ w.ledger.executions)
    (hid : y.id = x.id) (hcpu : y.cpuMillis = x.cpuMillis) (hmemory : y.memoryBytes = x.memoryBytes)
    (hboot : y.bootId = x.bootId) (hlease : y.leaseUntil = x.leaseUntil)
    (hstate : y.state = x.state) (habsent : y.executorAbsent = x.executorAbsent) :
    Rewrites w x y := by
  refine ⟨⟨hid, hcpu, hmemory, fun ha => ?_⟩, hboot, fun _ => hlease, fun hr => ?_, fun ha => ?_⟩
  · rw [active_iff, ← hstate]
    exact active_iff.mp ha
  · exact h.released x hx (hstate.symm.trans hr)
  · rw [hstate]
    exact h.absent x hx (habsent.symm.trans ha)

theorem keepsLive_state {state : ExecutionState} (hs : state ≠ .released) :
    KeepsLive fun x => { x with state := state } :=
  fun _ _ ha => ⟨hs, ha⟩

/-- The state of the row is set, and it is not set to released. -/
theorem Good.state (h : Sound capacity w) {state : ExecutionState} (hs : state ≠ .released)
    (hx : ∀ x ∈ w.ledger.executions, x.id = id → x.state ≠ .released ∧
      (x.executorAbsent = true → Ended state)) :
    Good capacity pid w
      { w with ledger := updateExecution w.ledger id fun x => { x with state := state } } := by
  refine Good.rewrite h (fun _ => rfl) (fun x hmem hid => ?_) (fun _ => le_refl _)
    (Or.inl (keepsLive_state hs))
  obtain ⟨hstate, habsent⟩ := hx x hmem hid
  exact Rewrites.state hstate hs fun ha => ⟨(h.absent x hmem ha).1, habsent ha⟩

/-! ### Transactions -/

theorem Good.write (h : Sound capacity w) {r : Except Fault Ledger}
    (hr : ∀ l, r = .ok l → Good capacity pid w { w with ledger := l }) :
    Good capacity pid w (write w r).2 := by
  cases r with
  | ok l => exact hr l rfl
  | error e => exact Good.refl pid h

theorem Good.transact {α : Type} (h : Sound capacity w) {r : Except Fault (α × Ledger)}
    (hr : ∀ a l, r = .ok (a, l) → Good capacity pid w { w with ledger := l }) :
    Good capacity pid w (transact w r).2 := by
  cases r with
  | ok al => exact hr al.1 al.2 rfl
  | error e => exact Good.refl pid h

/-- The row that a transaction has looked up is the only row of its identity. -/
theorem Sound.row_eq (h : Sound capacity w) {allowStale : Bool} {y : Execution}
    (hx : record w.ledger id allowStale = .ok x) (hy : y ∈ w.ledger.executions) (hid : y.id = id) :
    y = x := by
  have hget := h.accounts.keyed.get_eq hy
  rw [hid, record_ok hx] at hget
  exact (Option.some.inj hget).symm

theorem leaseValid_not_expired (h : leaseValid c x = true) : ¬Expired c x := by
  unfold leaseValid at h
  simp only [Bool.and_eq_true, beq_iff_eq, decide_eq_true_eq] at h
  rintro (hboot | hlease)
  · exact hboot h.1.1
  · omega

theorem good_quarantine (h : Sound capacity w) :
    Good capacity pid w { w with ledger := quarantine id w.ledger } := by
  refine Good.rewrite h (fun x => ?_) (fun x hx _ => ?_) (fun x => ?_) (Or.inl fun x hs ha => ?_)
  · split <;> rfl
  · by_cases ha : x.active = true
    · rw [if_pos ha]
      exact Rewrites.state (active_iff.mp ha) nofun fun hab =>
        ⟨(h.absent x hx hab).1, Or.inr (Or.inr (Or.inl rfl))⟩
    · rw [if_neg ha]
      exact Rewrites.aside h hx rfl rfl rfl rfl rfl rfl rfl
  · split <;> exact le_refl _
  · dsimp only
    rw [if_pos (active_iff.mpr hs)]
    exact ⟨nofun, ha⟩

/-- The row of a prior reservation is only read. -/
theorem reserveOpen_prior {prior : Execution} (hrec : record l spec.identity false = .ok prior)
    (h : reserveOpen capacity c spec l = .ok (opened, l')) : l' = l := by
  unfold reserveOpen at h
  simp only [hrec] at h
  split at h
  · cases h
  · split at h
    · cases h
    · split at h
      · exact (congrArg Prod.snd (pure_ok.mp h)).symm
      · split at h
        · cases h
        · exact (congrArg Prod.snd (pure_ok.mp h)).symm

/-- Without a row, `Reserve` charges for a new one. -/
theorem reserveOpen_new {e : Fault} (hrec : record l spec.identity false = .error e)
    (h : reserveOpen capacity c spec l = .ok (opened, l')) :
    Table.get (·.id) spec.identity l.executions = none ∧ Charged capacity c spec l l' := by
  unfold reserveOpen at h
  simp only [hrec, block_ok] at h
  obtain ⟨hcode, l', hcharge, -, rfl⟩ := h
  refine ⟨?_, charge_ok hcharge⟩
  unfold record at hrec
  split at hrec
  · assumption
  · split at hrec
    · rw [← Except.error.inj hrec] at hcode
      exact absurd (by decide) hcode
    · cases hrec

theorem good_reserveOpen (h : Sound capacity w)
    (hr : reserveOpen capacity w.clocks spec w.ledger = .ok (opened, l)) :
    Good capacity pid w { w with ledger := l } := by
  cases hrec : record w.ledger spec.identity false with
  | ok prior =>
    rw [reserveOpen_prior hrec hr]
    exact Good.refl pid h
  | error e =>
    obtain ⟨hnew, hc⟩ := reserveOpen_new hrec hr
    have haccounts := h.accounts.charged hnew hc
    obtain ⟨-, -, -, -, -, rfl⟩ := hc
    -- The new row is live, and its lease is of this boot.
    refine ⟨⟨haccounts, fun x hx hs => ?_, fun x hx ha => ?_, fun x hx => ?_, h.guards⟩,
      fun x hx => ?_,
      fun other _ => ⟨fun _ hh => hh, fun i _ hl x hx hid => ?_, fun _ _ hi => hi⟩⟩
    · rcases Table.mem_concat.mp hx with hx | rfl
      · exact h.released x hx hs
      · cases hs
    · rcases Table.mem_concat.mp hx with hx | rfl
      · exact h.absent x hx ha
      · cases ha
    · rcases Table.mem_concat.mp hx with hx | rfl
      · exact h.boots x hx
      · exact le_refl w.clocks.bootId
    · exact ⟨x, List.mem_append_left _ hx, rfl, fun hs => hs, fun he => he⟩
    · rcases Table.mem_concat.mp hx with hx | rfl
      · exact hl x hx hid
      · exact ⟨nofun, rfl⟩

theorem good_reserveClose (h : Sound capacity w) (hr : reserveClose w.clocks id w.ledger = .ok l) :
    Good capacity pid w { w with ledger := l } := by
  simp only [reserveClose, block_ok, not_or, not_not] at hr
  obtain ⟨x, hx, ⟨hstate, -⟩, rfl⟩ := hr
  refine Good.state h nofun fun y hy hid => ?_
  obtain rfl := h.row_eq hx hy hid
  refine ⟨by rw [hstate]; exact nofun, fun ha => ?_⟩
  have hended := (h.absent y hy ha).2
  rw [hstate] at hended
  exact absurd hended (by simp [Ended])

theorem good_renew (h : Sound capacity w) {nanoseconds : Nat}
    (hr : renew w.clocks id nanoseconds w.ledger = .ok l) :
    Good capacity pid w { w with ledger := l } := by
  simp only [renew, block_ok, not_or, Bool.not_eq_false] at hr
  obtain ⟨x, hx, ⟨-, -, -, -, hvalid⟩, rfl⟩ := hr
  refine Good.rewrite h (fun _ => rfl) (fun y hy hid => ?_) (fun _ => le_refl _)
    (Or.inl fun _ hs ha => ⟨hs, ha⟩)
  obtain rfl := h.row_eq hx hy hid
  exact ⟨⟨rfl, rfl, rfl, fun ha => ha⟩, rfl, fun he => absurd he (leaseValid_not_expired hvalid),
    h.released y hy, h.absent y hy⟩

/-- `Start` opens a row that has not ended. -/
theorem startOpen_ok (h : startOpen c id l = .ok l') :
    ∃ x, record l id false = .ok x ∧ ¬Ended x.state ∧
      l' = updateExecution l id fun x => { x with state := .starting } := by
  simp only [startOpen, block_ok] at h
  obtain ⟨x, hx, -, hstate, rfl⟩ := h
  refine ⟨x, hx, ?_, rfl⟩
  rintro (he | he | he | he) <;> simp [he] at hstate

section
variable (h : Sound capacity w)
include h

theorem good_startOpen (hr : startOpen w.clocks id w.ledger = .ok l) :
    Good capacity pid w { w with ledger := l } := by
  obtain ⟨x, hx, hopen, rfl⟩ := startOpen_ok hr
  refine Good.state h nofun fun y hy hid => ?_
  obtain rfl := h.row_eq hx hy hid
  exact ⟨fun hr => hopen (Or.inr (Or.inr (Or.inr hr))), fun ha => absurd (h.absent y hy ha).2 hopen⟩

theorem good_startClose (hl : Live w id) {state : Started} {valid : Bool}
    (hr : startClose w.clocks id state.state w.ledger = .ok (valid, l)) :
    Good capacity pid w { w with ledger := l } := by
  simp only [startClose, block_ok] at hr
  obtain ⟨x, hx, -, rfl⟩ := hr
  refine Good.state h (by cases state <;> exact nofun) fun y hy hid => ?_
  obtain ⟨hs, ha⟩ := hl y hy hid
  exact ⟨hs, fun ha' => absurd (ha.symm.trans ha') nofun⟩

theorem good_setStopping (hs : ∀ x ∈ w.ledger.executions, x.id = id → x.state ≠ .released) :
    Good capacity pid w { w with ledger := setStopping id w.ledger } :=
  Good.state h nofun fun x hx hid => ⟨hs x hx hid, fun _ => Or.inl rfl⟩

theorem good_setStopped (hh : Holds w pid id) (hl : Live w id) {absent : Bool}
    (hc : id ∈ w.confirmed) :
    Good capacity pid w { w with ledger := setStopped id absent w.ledger } := by
  refine Good.rewrite h (fun _ => rfl) (fun x hx hid => ?_) (fun _ => le_refl _) (Or.inr hh)
  exact ⟨⟨rfl, rfl, rfl, fun _ => active_iff.mpr (hl x hx hid).1⟩, rfl, fun _ => rfl, nofun,
    fun _ => ⟨hid ▸ hc, Or.inr (Or.inl rfl)⟩⟩

theorem good_setRetained {bytes : Int} :
    Good capacity pid w { w with ledger := setRetained id bytes w.ledger } :=
  Good.rewrite h (fun _ => rfl) (fun _ hx _ => Rewrites.aside h hx rfl rfl rfl rfl rfl rfl rfl)
    (fun _ => le_refl _)
    (Or.inl fun _ hs ha => ⟨hs, ha⟩)

theorem good_setReleased (hh : Holds w pid id) (hc : id ∈ w.confirmed) :
    Good capacity pid w { w with ledger := setReleased id w.ledger } := by
  refine Good.rewrite h (fun _ => rfl) (fun x hx hid => ?_) (fun _ => le_refl _) (Or.inr hh)
  exact ⟨⟨rfl, rfl, rfl, nofun⟩, rfl, fun _ => rfl, fun _ => hid ▸ hc,
    fun _ => ⟨hid ▸ hc, Or.inr (Or.inr (Or.inr rfl))⟩⟩

end

theorem Good.share (h : Good capacity pid w { w with ledger := l }) {shared : List SharedAuxiliary}
    (hk : Table.Keyed (·.component) shared)
    (hroom : usedBytes { l with shared := shared } ≤ capacity.diskBytes) :
    Good capacity pid w { w with ledger := { l with shared := shared } } :=
  ⟨⟨h.sound.accounts.share hk hroom, h.sound.released, h.sound.absent, h.sound.boots,
    h.sound.guards⟩, h.advances,
    fun other hne =>
      ⟨(h.others other hne).holds, (h.others other hne).live, (h.others other hne).confirmed⟩⟩

theorem good_setPurged (h : Sound capacity w) {auxiliaryDeleted : Bool} :
    Good capacity pid w { w with ledger := setPurged id auxiliaryDeleted w.ledger } := by
  have hrow : Good capacity pid w { w with ledger := updateExecution w.ledger id fun x =>
      { x with diskReleased := true, auxiliaryBytes := 0 } } :=
    Good.rewrite h (fun _ => rfl) (fun _ hx _ => Rewrites.aside h hx rfl rfl rfl rfl rfl rfl rfl)
      (fun _ => Nat.zero_le _) (Or.inl fun _ hs ha => ⟨hs, ha⟩)
  cases auxiliaryDeleted with
  | false => exact hrow
  | true =>
    refine hrow.share (h.accounts.charges.modify fun _ hx => hx) ?_
    refine le_trans ?_ hrow.sound.accounts.storage
    refine Int.add_le_add_left ?_ _
    show Table.total _ (List.map _ w.ledger.shared) ≤ Table.total _ w.ledger.shared
    rw [Table.total_map]
    refine Table.total_le fun s _ => ?_
    split
    · exact Int.natCast_nonneg s.reservedBytes
    · exact le_refl _

theorem good_chargeAuxiliary (h : Sound capacity w) {total : Nat} {shared : Bool}
    (hr : chargeAuxiliary capacity id total shared w.ledger = .ok l) :
    Good capacity pid w { w with ledger := l } := by
  unfold chargeAuxiliary at hr
  simp only [block_ok] at hr
  obtain ⟨x, hx, -, hr⟩ := hr
  cases shared with
  | true =>
    simp only [if_true] at hr
    split at hr
    · rw [← pure_ok.mp hr]
      exact Good.refl pid h
    · simp only [block_ok] at hr
      obtain ⟨used, hused, hroom, rfl⟩ := hr
      obtain rfl := nodeStorageUsage_ok hused
      refine (Good.refl pid h).share (h.accounts.charges.upsert _) ?_
      have hshared : (sharedBytes w.ledger id.component : Int) =
          (Table.get (·.component) id.component w.ledger.shared).elim 0 fun s =>
            (s.reservedBytes : Int) := by
        unfold sharedBytes
        cases Table.get (·.component) id.component w.ledger.shared <;> rfl
      unfold usedBytes at hroom ⊢
      rw [Table.total_upsert _ h.accounts.charges, ← hshared]
      dsimp only
      omega
  | false =>
    simp only [Bool.false_eq_true, if_false] at hr
    split at hr
    · rw [← pure_ok.mp hr]
      exact Good.refl pid h
    · next hmore =>
      simp only [block_ok] at hr
      obtain ⟨used, hused, hroom, rfl⟩ := hr
      obtain rfl := nodeStorageUsage_ok hused
      have hrewrites : ∀ y ∈ w.ledger.executions, y.id = id →
          Rewrites w y { y with auxiliaryBytes := total } :=
        fun y hy _ => Rewrites.aside h hy rfl rfl rfl rfl rfl rfl rfl
      refine Good.update h hrewrites (h.accounts.update (fun _ => rfl)
        (fun y hy hid => (hrewrites y hy hid).toKeeps) ((total : Int) - x.auxiliaryBytes) (by omega)
          (fun y hy hid => ?_) (by omega))
        (Or.inl fun _ hs ha => ⟨hs, ha⟩)
      obtain rfl := h.row_eq hx hy hid
      unfold executionBytes
      dsimp only
      omega

theorem good_watchdogClaim (h : Sound capacity w) {claimed : Bool}
    (hr : watchdogClaim w.clocks id w.ledger = .ok (claimed, l)) :
    Good capacity pid w { w with ledger := l } := by
  simp only [watchdogClaim, bind_ok] at hr
  obtain ⟨x, hx, hr⟩ := hr
  split at hr
  · obtain ⟨-, rfl⟩ := Prod.mk.inj (pure_ok.mp hr)
    exact Good.refl pid h
  · next hstate =>
    obtain ⟨-, rfl⟩ := Prod.mk.inj (pure_ok.mp hr)
    refine good_setStopping h fun y hy hid hs => ?_
    obtain rfl := h.row_eq hx hy hid
    exact hstate (Or.inl hs)

/-! ### Guards and the backend -/

theorem good_lock (h : Sound capacity w) {g : Guard} (hfree : ∀ e ∈ w.held, e.1 ≠ g) :
    Good capacity pid w { w with held := (g, pid) :: w.held } := by
  refine ⟨⟨h.accounts, h.released, h.absent, h.boots, ?_⟩, Advances.refl w,
    fun other _ => ⟨fun _ hh => List.mem_cons_of_mem _ hh, fun _ _ hl => hl, fun _ _ hc => hc⟩⟩
  refine List.nodup_cons.mpr ⟨fun hmem => ?_, h.guards⟩
  obtain ⟨e, he, heq⟩ := List.mem_map.mp hmem
  exact hfree e he heq

theorem good_unlock (h : Sound capacity w) {g : Guard} :
    Good capacity pid w { w with held := w.held.filter fun e => decide (e ≠ (g, pid)) } := by
  refine ⟨⟨h.accounts, h.released, h.absent, h.boots, h.guards.filter _⟩, Advances.refl w,
    fun other hne => ⟨fun i hh => ?_, fun _ _ hl => hl, fun _ _ hc => hc⟩⟩
  refine List.mem_filter.mpr ⟨hh, decide_eq_true fun he => hne ?_⟩
  exact congrArg Prod.snd he

theorem mem_confirms {i : Identity} {confirmed : Bool} (h : i ∈ w.confirmed) :
    i ∈ (confirms id confirmed w).confirmed := by
  unfold confirms
  split
  · exact List.mem_cons_of_mem _ h
  · exact h

/-- A confirmation changes no other part of the world. -/
theorem confirms_eq (confirmed : Bool) :
    confirms id confirmed w = { w with confirmed := (confirms id confirmed w).confirmed } := by
  unfold confirms
  split <;> rfl

theorem good_confirms (h : Sound capacity w) (confirmed : Bool) :
    Good capacity pid w (confirms id confirmed w) := by
  rw [confirms_eq]
  exact ⟨⟨h.accounts, fun x hx hs => mem_confirms (h.released x hx hs),
    fun x hx ha => ⟨mem_confirms (h.absent x hx ha).1, (h.absent x hx ha).2⟩, h.boots, h.guards⟩,
      Advances.refl w,
    fun other _ => ⟨fun _ hh => hh, fun _ _ hl => hl, fun _ _ hc => mem_confirms hc⟩⟩

theorem good_backendStart (h : Sound capacity w) (hh : Holds w pid id) (hl : Live w id) :
    Good capacity pid w { w with confirmed := w.confirmed.filter fun i => decide (i ≠ id) } := by
  have hkeep : ∀ i ∈ w.confirmed, i ≠ id → i ∈ w.confirmed.filter fun i => decide (i ≠ id) :=
      fun i hi hne =>
    List.mem_filter.mpr ⟨hi, decide_eq_true hne⟩
  refine ⟨⟨h.accounts, fun x hx hs => ?_, fun x hx ha => ?_, h.boots, h.guards⟩, Advances.refl w,
    fun other hne => ⟨fun _ hh => hh, fun _ _ hl => hl, fun i hi hc => hkeep i hc fun he => ?_⟩⟩
  · exact hkeep x.id (h.released x hx hs) fun hid => (hl x hx hid).1 hs
  · obtain ⟨hc, he⟩ := h.absent x hx ha
    exact ⟨hkeep x.id hc fun hid => absurd ((hl x hx hid).2.symm.trans ha) nofun, he⟩
  · exact hne (h.holds_unique hi (he ▸ hh))

/-! ### Calls -/

theorem effect_good {answer : Ans op} (h : Sound a.capacity w) (hpre : Pre pid op w)
    (hfree : ∀ g, op = .lock g → ∀ e ∈ w.held, e.1 ≠ g) :
    Good a.capacity pid w (effect a pid op answer w).2 := by
  cases op with
  | lock g => exact good_lock h (hfree g rfl)
  | unlock g => exact good_unlock h
  | reserveOpen spec => exact Good.transact h fun _ _ hr => good_reserveOpen h hr
  | reserveClose id => exact Good.write h fun _ hr => good_reserveClose h hr
  | renew id nanoseconds => exact Good.write h fun _ hr => good_renew h hr
  | startOpen id => exact Good.write h fun _ hr => good_startOpen h hr
  | startClose id state => exact Good.transact h fun _ _ hr => good_startClose h hpre.2 hr
  | setStopping id => exact good_setStopping h fun x hx hid => (hpre.2 x hx hid).1
  | setStopped id absent => exact good_setStopped h hpre.1 hpre.2.1 hpre.2.2
  | setRetained id bytes => exact good_setRetained h
  | setReleased id => exact good_setReleased h hpre.1 hpre.2
  | setPurged id auxiliaryDeleted => exact good_setPurged h
  | chargeAuxiliary id total shared => exact Good.write h fun _ hr => good_chargeAuxiliary h hr
  | watchdogClaim id => exact Good.transact h fun _ _ hr => good_watchdogClaim h hr
  | quarantine id => exact good_quarantine h
  | backendStart id => exact good_backendStart h hpre.1 hpre.2
  | backendInspect id | backendStop id | confirmAbsent id => exact good_confirms h _
  | _ => exact Good.refl pid h

/-- What a call may do: it takes place, or it fails and has done nothing or all. A guard that cannot
be taken is an error. -/
inductive Outcome (a : Agent) (pid : Nat) (w : World) : (op : Op) → Ans op → World → Prop
  | done (op : Op) (answer : Ans op) (hfree : ∀ g, op = .lock g → ∀ e ∈ w.held, e.1 ≠ g) :
    Outcome a pid w op (effect a pid op answer w).1 (effect a pid op answer w).2
  | refused (g : Guard) (e : Fault) : Outcome a pid w (.lock g) (.error e) w
  | lost (op : Op) (e : Ans op) (hfailure : failure op = some e) : Outcome a pid w op e w
  | unreported (op : Op) (answer e : Ans op) (hfailure : failure op = some e) :
    Outcome a pid w op e (effect a pid op answer w).2

theorem Outcome.of_effect {answer r : Ans op} (h : effect a pid op answer w = (r, w'))
    (hfree : ∀ g, op = .lock g → ∀ e ∈ w.held, e.1 ≠ g) : Outcome a pid w op r w' := by
  obtain rfl : (effect a pid op answer w).1 = r := congrArg Prod.fst h
  obtain rfl : (effect a pid op answer w).2 = w' := congrArg Prod.snd h
  exact .done op answer hfree

theorem perform_outcome {answer r : Ans op} {trouble : Trouble}
    (h : perform a pid op answer trouble w = some (r, w')) : Outcome a pid w op r w' := by
  unfold perform at h
  split at h
  · split at h
    · obtain ⟨rfl, rfl⟩ := Prod.mk.inj (Option.some.inj h)
      exact .refused _ _
    · split at h
      · cases h
      · next hfree =>
        refine .of_effect (Option.some.inj h) fun g hg e he heq =>
          hfree (List.any_eq_true.mpr ⟨e, he, decide_eq_true ?_⟩)
        rw [heq, Op.lock.inj hg]
  · next hlock =>
    split at h
    · next hfailure =>
      obtain ⟨rfl, rfl⟩ := Prod.mk.inj (Option.some.inj h)
      exact .lost _ _ hfailure
    · next hfailure =>
      obtain ⟨rfl, rfl⟩ := Prod.mk.inj (Option.some.inj h)
      exact .unreported _ _ _ hfailure
    · refine .of_effect (Option.some.inj h) fun g hg => ?_
      subst hg
      exact (hlock g answer rfl HEq.rfl).elim

theorem Outcome.good {r : Ans op} (ho : Outcome a pid w op r w')
    (h : Sound a.capacity w) (hpre : Pre pid op w) : Good a.capacity pid w w' := by
  cases ho with
  | done op answer hfree => exact effect_good h hpre hfree
  | refused g e | lost op e hfailure => exact Good.refl pid h
  | unreported op answer e hfailure =>
    refine effect_good h hpre fun g hg => ?_
    subst hg
    cases hfailure

end

end Hf2l.Node
