import Hf2l.Exchange.Python.Markers

/-!
# `Hf2l.Exchange.Python.Deletion`: a deletion never races an upload

An execution that cleans an attempt was acquired when the attempt was behind the barrier, had
no marker and no grant in force. The attempt stays behind the barrier without markers, so no
call that can write to its key starts any more, and by `Sys.Guarded` none is in progress. The
URLs for the attempt had expired when the execution was acquired, since every URL raises the
grant horizon in the transaction that issues it and none is issued behind the barrier.

`deletion_never_races` is the result for every run: what holds when a cleanup starts, and what
holds when `cleaned` is committed.
-/

set_option autoImplicit false

namespace Hf2l.Exchange.Python

open Lib
open Attempts

/-! ### Commits -/

theorem Follows.of_cleaned {s : TransferState} (h : Follows s .cleaned) : s = .cleanup := by
  cases h
  rfl

theorem callKind_cleanup {st : TransferState} (h : callKind st = some .cleanup) :
    st = .cleanup := by
  cases st <;> simp [callKind] at h ⊢

namespace Sys

/-! ### URLs -/

/-- The issued URLs after a step. -/
inductive Announced (s : Sys) (db : Db) : List IssuedUrl → Prop
  | same : Announced s db s.issued
  | expose (id : Id) (expiries : List Time) (h : Exposed s.db.ledger db.ledger id expiries) :
    Announced s db (s.issued ++ expiries.map fun t => ⟨id, t⟩)

theorem Rest.issued {s s' : Sys} {db : Db} (h : s.Rest db s') : s.Announced db s'.issued := by
  cases h with
  | exposeGrants g expiries h => exact .expose _ expiries h
  | exposePut p t _ _ h => exact .expose _ [t] h
  | fail e c f _ _ => cases hf : f.uncertain <;> exact .same
  | _ => exact .same

theorem Announced.mem {s : Sys} {db : Db} {us : List IssuedUrl} (h : s.Announced db us)
    {u : IssuedUrl} (hu : u ∈ us) :
    u ∈ s.issued ∨ ∃ expiries, Exposed s.db.ledger db.ledger u.attemptId expiries ∧
      u.expiresAt ∈ expiries := by
  cases h with
  | same => exact Or.inl hu
  | expose id expiries h =>
    rcases List.mem_append.mp hu with hu | hu
    · exact Or.inl hu
    · obtain ⟨t, ht, rfl⟩ := List.mem_map.mp hu
      exact Or.inr ⟨expiries, h, ht⟩

/-! ### Cleanups -/

/-- The call is the cleanup of the attempt, and every call that could write to the key of the
attempt had ended when it started. -/
def Alone (s : Sys) (id : Id) (call : Nat) : Prop :=
  ∃ k ∈ s.calls, k.id = call ∧ k.kind = .cleanup ∧ k.attemptId = id ∧
    ∀ m ∈ s.calls, m.kind.mutating = true → m.attemptId = id → ∃ t, m.endedAt = some t ∧
      t < k.startedAt

end Sys

/-- The execution is in its call, or has the outcome of it. -/
def Phase.within (p : Phase) (call : Nat) : Prop := p = .calling call ∨ ∃ o, p = .returned call o

namespace Sys

structure Barred (s : Sys) : Prop extends Guarded s where
  barrier : ∀ e ∈ s.executions, e.attempt.state = .cleanup → s.db.ledger.Barrier e.attempt.id
  horizon : ∀ u ∈ s.issued, s.db.ledger.Minted u.attemptId ∧
    s.db.ledger.Horizon u.attemptId u.expiresAt
  expired : ∀ e ∈ s.executions, e.attempt.state = .cleanup →
    ∀ u ∈ s.issued, u.attemptId = e.attempt.id → u.expiresAt ≤ e.acquiredAt
  alone : ∀ e ∈ s.executions, e.attempt.state = .cleanup → ∀ call, e.phase.within call →
    s.Alone e.attempt.id call

variable {s : Sys}

/-- No call that can write to the key is in progress for an attempt behind the barrier. -/
theorem Guarded.ended (h : s.Guarded) {id : Id} (hb : s.db.ledger.Barrier id) {c : Call}
    (hc : c ∈ s.calls) (hm : c.kind.mutating = true) (hid : c.attemptId = id) :
    ∃ t, c.endedAt = some t ∧ t < s.tick := by
  obtain ⟨t, ht, -⟩ := (h.call c hc).named
  cases hend : c.endedAt with
  | none => exact absurd hb (h.held id t (.call c hc ⟨hm, hend⟩ hid ht)).not_barrier
  | some u => exact ⟨u, rfl, (h.call c hc).ended u hend⟩

/-- The calls that start in a step are those of its participant. -/
theorem Known.started (env : Env) {a : Action} (h : s.Known) {k : Call}
    (hk : k ∈ (s.step env a).calls) (hstart : k.startedAt = s.tick) :
    s.Makes k := by
  have hlogged : s.Logged (s.step env a).calls := (s.act_rest env a).calls
  have hpast : ∀ c ∈ s.calls, c.startedAt ≠ s.tick := fun c hc => (h.call c hc).started.ne
  generalize (s.step env a).calls = calls at hk hlogged
  cases hlogged with
  | same => exact absurd hstart (hpast k hk)
  | start c _ _ _ hm =>
    rcases List.mem_append.mp hk with hk | hk
    · exact absurd hstart (hpast k hk)
    · exact List.mem_singleton.mp hk ▸ hm
  | stop i =>
    obtain ⟨c, hc, ⟨rfl, -⟩ | ⟨rfl, -, -⟩⟩ := mem_endCall hk
    · exact absurd hstart (hpast k hc)
    · exact absurd hstart (hpast c hc)

/-- An execution within its call was so before the step, or it starts the call. -/
theorem Rest.within {s' : Sys} {db : Db} (h : s.Rest db s') {e' : Execution}
    (he' : e' ∈ s'.executions) {call : Nat} (hp : e'.phase.within call) :
    (∃ e ∈ s.executions, e.attempt = e'.attempt ∧ e.phase.within call) ∨
      ∃ e ∈ s.executions, e.attempt = e'.attempt ∧ call = s.tick ∧
        ∃ k : Call, s'.calls = s.calls ++ [k] ∧ k.id = s.tick ∧ k.startedAt = s.tick ∧
        k.attemptId = e.attempt.id ∧ callKind e.attempt.state = some k.kind := by
  have hold : e' ∈ s.executions → ∃ e ∈ s.executions, e.attempt = e'.attempt ∧
      e.phase.within call :=
    fun hmem => ⟨e', hmem, rfl, hp⟩
  cases h with
  | spawn x now _ =>
    rcases Table.mem_concat.mp he' with he' | rfl
    · exact Or.inl (hold he')
    · simp [Phase.within] at hp
  | go e x he hgo =>
    rcases Table.of_mem_put he' with ⟨he', -⟩ | rfl
    · exact Or.inl (hold he')
    · rcases hp with hp | ⟨o, hp⟩
      · exact absurd hp (hgo.past.1 call)
      · exact absurd hp (hgo.past.2 call o)
  | leave id => exact Or.inl (hold (List.mem_filter.mp he').1)
  | begin e kind he _ hk =>
    rcases Table.of_mem_put he' with ⟨he', -⟩ | rfl
    · exact Or.inl (hold he')
    · refine Or.inr ⟨e, he, rfl, ?_, _, rfl, rfl, rfl, rfl, hk⟩
      simpa [Phase.within, eq_comm] using hp
  | answer e c o he hph _ =>
    rcases Table.of_mem_put he' with ⟨he', -⟩ | rfl
    · exact Or.inl (hold he')
    · refine Or.inl ⟨e, he, rfl, Or.inl ?_⟩
      rw [hph]
      simpa [Phase.within] using hp
  | fail e c f he _ =>
    have hmem : e' ∈ Table.put Execution.id
        { e with resolved := !f.uncertain, phase := .handling f } s.executions := by
      cases hf : f.uncertain <;> simpa [hf, update, endCall] using he'
    rcases Table.of_mem_put hmem with ⟨he', -⟩ | rfl
    · exact Or.inl (hold he')
    · simp [Phase.within] at hp
  | _ => exact Or.inl (hold he')

/-- The attempts of the cleanups stay behind the barrier, whatever an operator repairs. -/
theorem Known.barrier_step (env : Env) {a : Action} (h : s.Known)
    (hbarrier : ∀ e ∈ s.executions, e.attempt.state = .cleanup → s.db.ledger.Barrier e.attempt.id) :
    ∀ e ∈ (s.step env a).executions, e.attempt.state = .cleanup →
      (s.step env a).db.ledger.Barrier e.attempt.id := by
  intro e' he' hs'
  have hs := h.regular.accounted.toSound
  have heff := step_effect env hs h.linked a
  rcases (s.act_rest env a).executions.mem he' with ⟨e, he, hres⟩ | ⟨x, now, hspawn, rfl⟩
  · rw [hres.attempt] at hs' ⊢
    exact h.barrier_kept env a (h.linked e he).1 (hbarrier e he hs')
  · intro y hy hid
    have hsound' := heff.sound hs
    rw [step_db] at hy hsound'
    obtain rfl : y = x := hsound'.attempts.eq_of_key_eq hy hspawn.mem hid
    exact ⟨Or.inl hs', (hspawn.cleared hs').1⟩

namespace Barred

variable (env : Env) {a : Action}

theorem horizon_step (h : s.Barred) : ∀ u ∈ (s.step env a).issued,
    (s.step env a).db.ledger.Minted u.attemptId ∧
      (s.step env a).db.ledger.Horizon u.attemptId u.expiresAt := by
  intro u hu
  have hs := h.regular.accounted.toSound
  have heff := step_effect env hs h.linked a
  have hle := heff.minted_le hs
  rcases (s.act_rest env a).issued.mem hu with hu | ⟨expiries, hexposed, ht⟩
  · obtain ⟨hm, hh⟩ := h.horizon u hu
    exact ⟨hm.mono hle, heff.horizon hs hm hh⟩
  · obtain ⟨x, hx, hxid, -⟩ := hexposed.row
    refine ⟨(hxid ▸ hs.mintedAttempts x hx).mono hle, fun y hy hid => ?_⟩
    rw [step_db] at hy
    exact hexposed.raised y hy hid _ ht

theorem expired_step (h : s.Barred) : ∀ e ∈ (s.step env a).executions, e.attempt.state = .cleanup →
    ∀ u ∈ (s.step env a).issued, u.attemptId = e.attempt.id → u.expiresAt ≤ e.acquiredAt := by
  intro e' he' hs' u hu huid
  rcases (s.act_rest env a).executions.mem he' with ⟨e, he, hres⟩ | ⟨x, now, hspawn, rfl⟩
  · rw [hres.attempt] at hs' huid
    rw [hres.acquiredAt]
    rcases (s.act_rest env a).issued.mem hu with hu | ⟨expiries, hexposed, -⟩
    · exact h.expired e he hs' u hu huid
    · -- URLs are issued for an upload, and an attempt behind the barrier is none.
      obtain ⟨y, hy, hyid, hup⟩ := hexposed.row
      have hbar := (h.barrier e he hs' y hy (hyid.trans huid)).1
      simp [TransferState.barred, hup] at hbar
  · have hx : x ∈ (s.step env a).db.ledger.attempts := by
      rw [step_db]
      exact hspawn.mem
    exact le_trans ((h.horizon_step env u hu).2 x hx huid.symm) (hspawn.cleared hs').2

/-- A cleanup stays alone: no call that can write starts behind the barrier. -/
theorem alone_logged (h : s.Barred) {id : Id} (hb : s.db.ledger.Barrier id) {call : Nat}
    (ha : s.Alone id call) {s' : Sys} (hl : s.Logged s'.calls) : s'.Alone id call := by
  obtain ⟨k, hk, hkid, hkind, hkat, hall⟩ := ha
  unfold Alone
  generalize s'.calls = calls at hl
  cases hl with
  | same => exact ⟨k, hk, hkid, hkind, hkat, hall⟩
  | start c _ _ _ hm =>
    refine ⟨k, List.mem_append_left _ hk, hkid, hkind, hkat, fun m hmem hmut hmid => ?_⟩
    rcases Table.mem_concat.mp hmem with hmem | rfl
    · exact hall m hmem hmut hmid
    · obtain ⟨-, t, ht, -⟩ := h.made hm
      have hheld := h.held _ t (hm.uses hmut ht)
      rw [hmid] at hheld
      exact absurd hb hheld.not_barrier
  | stop i =>
    refine ⟨_, List.mem_map_of_mem hk, ?_, ?_, ?_, fun m hmem hmut hmid => ?_⟩
    · split_ifs <;> exact hkid
    · split_ifs <;> exact hkind
    · split_ifs <;> exact hkat
    · have hstart : ∀ t, t < k.startedAt →
          t < (if k.id = i ∧
            k.endedAt = none then { k with endedAt := some s.tick } else k).startedAt := by
        intro t ht
        split_ifs <;> exact ht
      obtain ⟨c, hc, ⟨rfl, -⟩ | ⟨rfl, -, hnone⟩⟩ := mem_endCall hmem
      · obtain ⟨t, hend, ht⟩ := hall m hc hmut hmid
        exact ⟨t, hend, hstart t ht⟩
      · obtain ⟨t, hend, -⟩ := hall c hc hmut hmid
        simp [hnone] at hend

theorem alone_step (h : s.Barred) : ∀ e ∈ (s.step env a).executions, e.attempt.state = .cleanup →
    ∀ call, e.phase.within call → (s.step env a).Alone e.attempt.id call := by
  intro e' he' hs' call hp
  have hrest := s.act_rest env a
  rcases hrest.within he' hp with ⟨e, he, hat, hph⟩ | ⟨e, he, hat, rfl, k, hcalls, hkid, hkstart,
    hkat, hkind⟩
  · rw [← hat] at hs' ⊢
    have halone := h.alone_logged (h.barrier e he hs') (h.alone e he hs' call hph) hrest.calls
    exact halone
  · rw [← hat] at hs' ⊢
    -- The cleanup starts: every call that could write has ended before this step.
    rw [hs'] at hkind
    have hclean : k.kind = .cleanup := (Option.some.inj hkind).symm
    have halone : (s.act env a).Alone e.attempt.id s.tick := by
      unfold Alone
      rw [hcalls]
      refine ⟨k, List.mem_append_right _ List.mem_cons_self, hkid, hclean, hkat,
        fun m hm hmut hmid => ?_⟩
      rcases Table.mem_concat.mp hm with hm | rfl
      · rw [hkstart]
        exact h.ended (h.barrier e he hs') hm hmut hmid
      · rw [hclean] at hmut
        simp [CallKind.mutating] at hmut
    exact halone

theorem step (h : s.Barred) (hq : s.RepairsQuiet a) : (s.step env a).Barred where
  toGuarded := h.toGuarded.step env hq
  barrier := h.toKnown.barrier_step env h.barrier
  horizon := h.horizon_step env
  expired := h.expired_step env
  alone := h.alone_step env

theorem created_barred (spaceId profile : String) (limits : Limits) (creator : Principal)
    (now : Time) :
    (created spaceId profile limits creator now).Barred where
  toGuarded := Guarded.created_guarded spaceId profile limits creator now
  barrier := by simp [created]
  horizon := by simp [created]
  expired := by simp [created]
  alone := by simp [created]

end Barred

/-! ### The result -/

/-- The storage may carry out the cleanup `k`: nothing writes to the key, the attempt has no
marker, and its URLs had expired when the execution that makes the call was acquired. -/
structure MayDelete (s : Sys) (k : Call) : Prop where
  idle : ∀ c ∈ s.calls, c.Writing → c.key ≠ k.key
  unmarked : ∀ x ∈ s.db.ledger.attempts, x.id = k.attemptId → x.mutationTokens = []
  expired : ∃ e ∈ s.executions, e.attempt.id = k.attemptId ∧ e.attempt.objectKey = k.key ∧
    ∀ u ∈ s.issued, u.attemptId = k.attemptId → u.expiresAt ≤ e.acquiredAt

/-- The step commits the outcome of a cleanup of the attempt `x`, and every call that could
write to the key of `x` had ended when that cleanup started. -/
structure CommitsCleanup (s : Sys) (a : Action) (x : TransferAttempt) : Prop where
  committed : ∃ id clock e k, a = .next id clock ∧ s.execution id = some e ∧ e.attempt.id = x.id ∧
    e.phase = .returned k.id .cleaned ∧ k ∈ s.calls ∧ k.kind = .cleanup ∧ k.attemptId = x.id ∧
    ∀ m ∈ s.calls, m.kind.mutating = true → m.key = x.objectKey → ∃ t, m.endedAt = some t ∧
      t < k.startedAt

/-- What a step does to objects and to the state `cleaned` is safe. -/
structure DeletionSafe (env : Env) (s : Sys) (a : Action) : Prop where
  starts : ∀ k ∈ (s.step env a).calls, k.kind = .cleanup → k.startedAt = s.tick → s.MayDelete k
  commits : ∀ x ∈ (s.step env a).db.ledger.attempts, x.state = .cleaned →
    (∃ y ∈ s.db.ledger.attempts, y.id = x.id ∧ y.state = .cleaned) ∨ s.CommitsCleanup a x

namespace Barred

variable (env : Env) {a : Action}

theorem mayDelete (h : s.Barred) {k : Call} (hk : k ∈ (s.step env a).calls)
    (hkind : k.kind = .cleanup) (hstart : k.startedAt = s.tick) : s.MayDelete k := by
  cases h.toKnown.started env hk hstart with
  | put p _ _ hput _ _ _ => simp [hkind] at hput
  | execution e he hp hcall hid hkey _ =>
    have hs : e.attempt.state = .cleanup := callKind_cleanup (hkind ▸ hcall)
    have hbarrier := h.barrier e he hs
    refine ⟨fun c hc hw hck => ?_, fun x hx hxid => (hbarrier x hx (hxid.trans hid)).2, e, he,
      hid.symm, hkey.symm,
      fun u hu huid => h.expired e he hs u hu (huid.trans hid)⟩
    -- A call on the same key is a call for the same attempt.
    have hcid : c.attemptId = e.attempt.id := by
      rw [← (h.call c hc).key, hck, hkey, (h.execution e he).key]
    obtain ⟨t, hend, -⟩ := h.ended hbarrier hc hw.1 hcid
    rw [hw.2] at hend
    simp at hend

theorem commitsCleanup (h : s.Barred) {x : TransferAttempt}
    (hx : x ∈ (s.step env a).db.ledger.attempts) (hc : x.state = .cleaned) :
    (∃ y ∈ s.db.ledger.attempts, y.id = x.id ∧ y.state = .cleaned) ∨ s.CommitsCleanup a x := by
  have hs := h.regular.accounted.toSound
  have heff := step_effect env hs h.linked a
  rcases heff.cleaned_by hs hx hc with hold | ⟨st, hw⟩
  · exact Or.inl hold
  · obtain ⟨id, clock, e, o, ha, he, hcommits, hid, rfl, hst'⟩ := h.advanced hw
    obtain ⟨c, hp⟩ := hcommits.answered hst'.symm
    have hclean : e.attempt.state = .cleanup := Follows.of_cleaned (hst' ▸ hcommits.follows)
    have ho : o = .cleaned := by
      cases o <;> simp [Outcome.state] at hst' ⊢
    obtain ⟨k, hk, rfl, hkind, hkat, hall⟩ := h.alone e (execution_mem he) hclean c (Or.inr ⟨o, hp⟩)
    refine Or.inr ⟨id, clock, e, k, ha, he, hid.symm, ho ▸ hp, hk, hkind, hkat.trans hid.symm, ?_⟩
    intro m hm hmut hkey
    refine hall m hm hmut ?_
    rw [← (h.call m hm).key, hkey, (heff.keysMatch hs h.keys x hx).2, hid]

end Barred

end Sys

/-- **Object deletion never races an upload**, in every run of executions, gateway PUTs, provider
calls of any length, exceptions and crashes, if an operator repairs attempts only when what
they assert is true. -/
theorem deletion_never_races (env : Env) (spaceId profile : String) (limits : Limits)
    (creator : Principal) (now : Time) (actions : List Action)
    (hq : Run.Every (Sys.step env) Sys.RepairsQuiet (Sys.created spaceId profile limits creator now)
      actions) :
    Run.Every (Sys.step env) (Sys.DeletionSafe env) (Sys.created spaceId profile limits creator now)
      actions := by
  refine Run.every_of_keeps (P := Sys.Barred) (fun s a h hquiet => h.step env hquiet)
    (fun s a h _ => ?_)
    (Sys.Barred.created_barred spaceId profile limits creator now) hq
  exact ⟨fun k hk hkind hstart => h.mayDelete env hk hkind hstart,
    fun x hx hc => h.commitsCleanup env hx hc⟩

namespace Sample

open Exchange.Sample

/-- The process of an upload crashes in its `start` call. The call ends, an operator repairs
the attempt, and a worker cleans it. -/
def cleanedAfterRepair : List Action :=
  uploadStarts ++
    [.crash 2, .callEnds 4, .repair ["3"] true true (still 500),
      .process "3" (some true) (still 1000), .next 8 (still 1000), .next 8 (still 1000), .call 8,
      .returns 8 .cleaned, .next 8 (still 1001)]

end Sample

/-- The run of `Sample.cleanedAfterRepair` is safe, and its attempt is clean at the end. -/
theorem deletion_never_races_cleanedAfterRepair :
    Run.Every (Sys.step Sample.env) (Sys.DeletionSafe Sample.env) Sample.start
      Sample.cleanedAfterRepair ∧
      ∃ x ∈ (Sample.start.run Sample.env Sample.cleanedAfterRepair).db.ledger.attempts,
      x.state = .cleaned :=
  ⟨deletion_never_races Sample.env "space" "generic.v1" Sample.limits Sample.owner 0
    Sample.cleanedAfterRepair
    (by decide +kernel), by decide +kernel⟩

end Hf2l.Exchange.Python
