import Hf2l.Exchange.Service.Integrity
import Hf2l.Exchange.Service.Log
import Mathlib.Data.List.Pairwise

/-!
# `Hf2l.Exchange.Service.Workloads`: grants fenced by attempt

A grant admits a workload principal to a managed space for one attempt of its job. The epoch of
an attempt is its fence: a principal is granted a later attempt only under a greater epoch, and
only when the attempt before it is revoked. A revocation is a tombstone that is never removed.

`Granting` lists what a transaction does to these tables, and `Db.Admitted` is what is kept. The
one fact that ties the rows together is that a grant is disabled exactly when its attempt has a
tombstone: so an attempt that can still be granted has no disabled grant, and every earlier
attempt has no enabled one.
-/

set_option autoImplicit false

namespace Hf2l.Exchange

open Lib Lib.Checked

/-- The attempt has a tombstone. -/
def Db.Revoked (db : Db) (attemptId : String) : Prop :=
  ∃ v ∈ db.revocations, v.attemptId = attemptId

/-- The grant after a revocation of the attempt. -/
def WorkloadGrant.revokedBy (attemptId : String) (now : Time) (g : WorkloadGrant) : WorkloadGrant :=
  if g.attemptId = attemptId ∧ g.enabled then { g with enabled := false, revokedAt := some now }
  else g

/-- What the grants that its principal had allow a new grant. -/
structure WorkloadGrant.Admissible (db : Db) (g : WorkloadGrant) : Prop where
  enabled : g.enabled = true
  active : db.retired = false
  unrevoked : ¬ db.Revoked g.attemptId
  current : ∀ x ∈ db.grants, x.principalId = g.principalId → x.enabled = true →
    x.attemptId = g.attemptId ∧ x.epoch = g.epoch
  later : ∀ x ∈ db.grants, x.principalId = g.principalId → x.attemptId ≠ g.attemptId →
    x.epoch < g.epoch

/-- What a transaction does to the workloads of a space. -/
inductive Granting (db db' : Db) : Prop
  | same (h : db.SameWorkloads db')
  | manage (hr : db'.retired = false) (hg : db'.grants = db.grants)
    (hv : db'.revocations = db.revocations)
  | grant (g : WorkloadGrant) (ha : g.Admissible db) (hm : db'.managed = db.managed)
    (hg : db'.grants = db.grants ++ [g])
    (hv : db'.revocations = db.revocations)
  | revoke (attemptId : String) (now : Time) (hm : db'.managed = db.managed)
    (hg : db'.grants = db.grants.map (WorkloadGrant.revokedBy attemptId now))
    (hv : db'.revocations = if db.revocations.any (·.attemptId = attemptId) then db.revocations
      else db.revocations ++ [⟨attemptId, now⟩])
  | retire (hn : ∀ g ∈ db.grants, g.enabled = false) (hg : db'.grants = db.grants)
    (hv : db'.revocations = db.revocations)

/-! ### What is kept -/

/-- Two grants of one principal, the first made before the second. -/
def WorkloadGrant.Precedes (g g' : WorkloadGrant) : Prop :=
  g.principalId = g'.principalId → g.attemptId = g'.attemptId ∧ g.epoch = g'.epoch ∨
    g.attemptId ≠ g'.attemptId ∧ g.epoch < g'.epoch ∧ g.enabled = false

structure Db.Admitted (db : Db) : Prop where
  ordered : db.grants.Pairwise WorkloadGrant.Precedes
  disabled : ∀ g ∈ db.grants, g.enabled = false ↔ db.Revoked g.attemptId
  retired : db.retired = true → ∀ g ∈ db.grants, g.enabled = false

/-- What the rows show. Grants stand in the order they were made in. -/
structure Db.GrantsFenced (db : Db) : Prop where
  /-- The enabled grants of a principal are of one attempt and epoch. -/
  one : ∀ g ∈ db.grants, ∀ g' ∈ db.grants, g.principalId = g'.principalId → g.enabled = true →
    g'.enabled = true → g.attemptId = g'.attemptId ∧ g.epoch = g'.epoch
  /-- The epochs of the attempts of a principal increase. -/
  epochs : db.grants.Pairwise fun g g' =>
    g.principalId = g'.principalId → g.attemptId ≠ g'.attemptId → g.epoch < g'.epoch
  revoked : ∀ g ∈ db.grants, db.Revoked g.attemptId → g.enabled = false
  retired : db.retired = true → ∀ g ∈ db.grants, g.enabled = false

variable {db : Db} {clock : Clock}

theorem Db.Admitted.fenced (h : db.Admitted) : db.GrantsFenced where
  one := by
    -- Of two enabled grants the one that was made first decides.
    have hfirst : ∀ g g' : WorkloadGrant, g.Precedes g' → g.principalId = g'.principalId →
        g.enabled = true → g.attemptId = g'.attemptId ∧ g.epoch = g'.epoch := by
      intro g g' hp he hen
      rcases hp he with hsame | ⟨-, -, hdis⟩
      · exact hsame
      · simp [hen] at hdis
    intro g hg g' hg'
    refine List.Pairwise.forall_of_forall_of_flip
      (R := fun g g' : WorkloadGrant => g.principalId = g'.principalId →
      g.enabled = true → g'.enabled = true → g.attemptId = g'.attemptId ∧ g.epoch = g'.epoch)
      (fun _ _ _ _ _ => ⟨rfl, rfl⟩) (h.ordered.imp fun {x y} hp he hen _ => hfirst x y hp he hen)
      (h.ordered.imp fun {x y} hp he _ hen => ?_) hg hg'
    obtain ⟨h1, h2⟩ := hfirst x y hp he.symm hen
    exact ⟨h1.symm, h2.symm⟩
  epochs := h.ordered.imp fun {g g'} hp he hne => by
    rcases hp he with hsame | ⟨-, hlt, -⟩
    · exact absurd hsame.1 hne
    · exact hlt
  revoked g hg hr := (h.disabled g hg).mpr hr
  retired := h.retired

namespace WorkloadGrant

variable {attemptId : String} {now : Time} {g : WorkloadGrant}

theorem revokedBy_fields (attemptId : String) (now : Time) (g : WorkloadGrant) :
    (g.revokedBy attemptId now).id = g.id ∧
      (g.revokedBy attemptId now).principalId = g.principalId ∧
      (g.revokedBy attemptId now).attemptId = g.attemptId ∧
      (g.revokedBy attemptId now).epoch = g.epoch := by
  unfold revokedBy
  split_ifs <;> exact ⟨rfl, rfl, rfl, rfl⟩

theorem revokedBy_enabled :
    (g.revokedBy attemptId now).enabled = false ↔ g.enabled = false ∨ g.attemptId = attemptId := by
  unfold revokedBy
  split_ifs with h
  · exact ⟨fun _ => Or.inr h.1, fun _ => rfl⟩
  · cases he : g.enabled with
    | false => simp
    | true => simpa [he] using h

theorem Precedes.revokedBy {g' : WorkloadGrant} (h : g.Precedes g') :
    (g.revokedBy attemptId now).Precedes (g'.revokedBy attemptId now) := by
  obtain ⟨-, hp, ha, he⟩ := revokedBy_fields attemptId now g
  obtain ⟨-, hp', ha', he'⟩ := revokedBy_fields attemptId now g'
  unfold Precedes
  rw [hp, ha, he, hp', ha', he', revokedBy_enabled]
  intro heq
  rcases h heq with h | ⟨h1, h2, h3⟩
  · exact Or.inl h
  · exact Or.inr ⟨h1, h2, Or.inl h3⟩

end WorkloadGrant

namespace Granting

variable {db db' : Db}

/-- Tombstones are never removed. -/
theorem revoked (h : Granting db db') {attemptId : String} (hr : db.Revoked attemptId) :
    db'.Revoked attemptId := by
  unfold Db.Revoked at *
  cases h with
  | same h => rwa [h.revocations]
  | manage _ _ hv | grant g _ _ _ hv | retire _ _ hv => rwa [hv]
  | revoke a now _ _ hv =>
    rw [hv]
    split_ifs
    · exact hr
    · obtain ⟨v, hv, he⟩ := hr
      exact ⟨v, List.mem_append_left _ hv, he⟩

/-- The identity of a grant. -/
def identity (g : WorkloadGrant) : Id × Id × String × Int :=
  (g.id, g.principalId, g.attemptId, g.epoch)

/-- Grants are kept in the order they are made in. -/
theorem appended (h : Granting db db') : db.grants.map identity <+: db'.grants.map identity := by
  cases h with
  | same h => exact h.grants ▸ List.prefix_rfl
  | manage _ hg _ | retire _ hg _ => exact hg ▸ List.prefix_rfl
  | grant g _ _ hg _ =>
    rw [hg, List.map_append]
    exact List.prefix_append _ _
  | revoke a now _ hg _ =>
    have hsame : (db.grants.map (WorkloadGrant.revokedBy a now)).map identity =
        db.grants.map identity := by
      rw [List.map_map]
      refine List.map_congr_left fun g _ => ?_
      obtain ⟨h1, h2, h3, h4⟩ := WorkloadGrant.revokedBy_fields a now g
      simp only [Function.comp_apply, identity, h1, h2, h3, h4]
    exact hsame ▸ hg ▸ List.prefix_rfl

/-- **Every transaction keeps the grants fenced.** -/
theorem admitted (ha : db.Admitted) (h : Granting db db') : db'.Admitted := by
  cases h with
  | same h =>
    refine ⟨by rw [h.grants]; exact ha.ordered, ?_, ?_⟩
    · unfold Db.Revoked
      rw [h.grants, h.revocations]
      exact ha.disabled
    · unfold Db.retired
      rw [h.managed, h.grants]
      exact ha.retired
  | manage hr hg hv =>
    refine ⟨by rw [hg]; exact ha.ordered, ?_, fun h => by simp [hr] at h⟩
    unfold Db.Revoked
    rw [hg, hv]
    exact ha.disabled
  | grant g hadm hm hg hv =>
    have hrevoked : db'.Revoked = db.Revoked := by
      unfold Db.Revoked
      rw [hv]
    refine ⟨?_, fun x hx => ?_, fun hr => ?_⟩
    · rw [hg, List.pairwise_append]
      refine ⟨ha.ordered, List.pairwise_singleton _ g, fun x hx y hy hp => ?_⟩
      obtain rfl := List.mem_singleton.mp hy
      by_cases heq : x.attemptId = y.attemptId
      · -- A disabled grant of this attempt would have a tombstone.
        have hen : x.enabled = true := by
          cases he : x.enabled with
          | true => rfl
          | false => exact absurd (heq ▸ (ha.disabled x hx).mp he) hadm.unrevoked
        exact Or.inl (hadm.current x hx hp hen)
      · refine Or.inr ⟨heq, hadm.later x hx hp heq, ?_⟩
        cases he : x.enabled with
        | false => rfl
        | true => exact absurd (hadm.current x hx hp he).1 heq
    · rw [hrevoked]
      rw [hg] at hx
      rcases Table.mem_concat.mp hx with hx | rfl
      · exact ha.disabled x hx
      · exact ⟨fun he => by simp [hadm.enabled] at he, fun hr => absurd hr hadm.unrevoked⟩
    · have hactive := hadm.active
      unfold Db.retired at hr hactive
      rw [hm, hactive] at hr
      simp at hr
  | revoke a now hm hg hv =>
    have hrevoked : ∀ x, db'.Revoked x ↔ db.Revoked x ∨ x = a := by
      intro x
      unfold Db.Revoked
      rw [hv]
      split_ifs with hany
      · obtain ⟨v, hmem, he⟩ := List.any_eq_true.mp hany
        refine ⟨Or.inl, fun h => h.elim id ?_⟩
        rintro rfl
        exact ⟨v, hmem, by simpa using he⟩
      · simp [or_and_right, exists_or, eq_comm]
    refine ⟨?_, fun x hx => ?_, fun hr x hx => ?_⟩
    · rw [hg]
      exact ha.ordered.map _ fun _ _ h => h.revokedBy
    · rw [hg] at hx
      obtain ⟨g, hmem, rfl⟩ := List.mem_map.mp hx
      rw [WorkloadGrant.revokedBy_enabled, hrevoked, (WorkloadGrant.revokedBy_fields a now g).2.2.1,
        ha.disabled g hmem]
    · rw [hg] at hx
      obtain ⟨g, hmem, rfl⟩ := List.mem_map.mp hx
      unfold Db.retired at hr
      rw [hm] at hr
      exact WorkloadGrant.revokedBy_enabled.mpr (Or.inl (ha.retired hr g hmem))
  | retire hn hg hv =>
    refine ⟨by rw [hg]; exact ha.ordered, ?_, fun _ => by rw [hg]; exact hn⟩
    unfold Db.Revoked
    rw [hg, hv]
    exact ha.disabled

end Granting

/-! ### Commands -/

namespace Service

variable {d : Dialect} {env : Env} {db db' : Db} {p : Principal} {clock : Clock}
  {response : Response}

/-- A transaction that writes finds the space not retired. -/
theorem transaction_write {now : Time} {member : Member}
    (h : transaction env db p .write now = .ok member) :
    db.retired = false := by
  simp only [transaction, block_ok, refuse_ok, not_and] at h
  obtain ⟨_, -, -, _, -, hr, -⟩ := h
  cases he : db.retired with
  | false => rfl
  | true => exact absurd trivial (hr he)

variable {key : String}

/-- A guarded command does to the workloads what its action does. -/
theorem once_granting {scope : String} {request : Request} {now : Time}
    {action : Except Error (Db × Response)}
    (h : once env db p scope key request now action = .ok (db', response))
    (ha : ∀ db₁ r, action = .ok (db₁, r) → db₁.SameWorkloads db' → Granting db db') :
    Granting db db' := by
  rcases once_cases h with ⟨-, -, -, rfl, -⟩ | ⟨-, db₁, h₁, rfl⟩
  · exact .same ⟨rfl, rfl, rfl⟩
  · exact ha db₁ response h₁ ⟨rfl, rfl, rfl⟩

theorem enableManagedSpace_granting {jobId : String} {foreign : Bool}
    (h : enableManagedSpace env p jobId foreign key clock db = .ok (db', response)) :
    Granting db db' := by
  simp only [enableManagedSpace, block_ok] at h
  obtain ⟨-, -, _, -, -, h⟩ := h
  refine once_granting h fun db₁ _ h₁ hs => ?_
  unfold enableManagedSpace.enable at h₁
  split at h₁
  · simp only [block_ok] at h₁
    obtain ⟨-, rfl, -⟩ := h₁
    exact .same hs
  · simp only [block_ok] at h₁
    obtain ⟨-, rfl, -⟩ := h₁
    refine .manage ?_ hs.grants hs.revocations
    unfold Db.retired
    rw [hs.managed]
    rfl

theorem releaseAll_workloads (clock : Clock) (rs : List Record) (db : Db) :
    db.SameWorkloads (releaseAll d db rs clock) := by
  induction rs generalizing db with
  | nil => exact ⟨rfl, rfl, rfl⟩
  | cons r rs ih =>
    have hone : db.SameWorkloads (release d db r (stoppedState r) clock) := release_workloads ..
    have hrest := ih (release d db r (stoppedState r) clock)
    exact ⟨hrest.managed.trans hone.managed, hrest.grants.trans hone.grants,
      hrest.revocations.trans hone.revocations⟩

theorem retireManagedSpace_granting {jobId : String}
    (h : retireManagedSpace d env p jobId key clock db = .ok (db', response)) :
    Granting db db' := by
  simp only [retireManagedSpace, block_ok] at h
  obtain ⟨-, -, _, -, -, managed, -, -, h⟩ := h
  refine once_granting h fun db₁ _ h₁ hs => ?_
  simp only [retireManagedSpace.retire, block_ok, refuse_ok, Bool.not_eq_true,
    List.any_eq_false] at h₁
  obtain ⟨hn, h₁⟩ := h₁
  split at h₁
  · obtain rfl := fst_ok h₁
    exact .same hs
  · obtain rfl := fst_ok h₁
    have hrelease := releaseAll_workloads (d := d) (fun i => clock (i + 2)) db.ledger.records
      { db with managed := some { managed with retiredAt := some (clock 1) } }
    exact .retire (fun g hg => by simpa using hn g hg) (hs.grants.trans hrelease.grants)
      (hs.revocations.trans hrelease.revocations)

/-- The checks on earlier grants. -/
theorem checkPreviousGrants_ok {body : WorkloadGrantBody} {previous : List WorkloadGrant}
    (h : checkPreviousGrants body previous = .ok ()) :
    (∀ g ∈ previous, g.enabled = true → g.attemptId = body.attemptId ∧ g.epoch = body.epoch) ∧
      ∀ g ∈ previous, g.attemptId ≠ body.attemptId → g.epoch < body.epoch := by
  simp only [checkPreviousGrants, block_ok, refuse_ok, Bool.not_eq_true, List.any_eq_false,
    decide_eq_true_eq, not_and, not_or, ne_eq, not_not, Int.not_le, ge_iff_le] at h
  exact ⟨h.2.2.1, h.2.2.2⟩

theorem createWorkloadGrant_granting {body : WorkloadGrantBody}
    (h : createWorkloadGrant env p body key clock db = .ok (db', response)) : Granting db db' := by
  simp only [createWorkloadGrant, block_ok] at h
  obtain ⟨-, -, _, htx, -, h⟩ := h
  refine once_granting h fun db₁ _ h₁ hs => ?_
  simp only [createWorkloadGrant.create, block_ok, refuse_ok] at h₁
  obtain ⟨_, -, -, hrev, _, -, -, hprev, -, rfl, -⟩ := h₁
  obtain ⟨hcurrent, hlater⟩ := checkPreviousGrants_ok hprev
  have hmem : ∀ x ∈ db.grants,
      x.principalId = env.boundPrincipalId env.workloadIssuer body.subject →
      x ∈ db.grants.filter (·.principalId = env.boundPrincipalId env.workloadIssuer body.subject) :=
    fun x hx hp => List.mem_filter.mpr ⟨hx, decide_eq_true hp⟩
  refine .grant _ ?_ hs.managed hs.grants hs.revocations
  refine ⟨rfl, transaction_write htx, ?_, fun x hx hp => hcurrent x (hmem x hx hp),
    fun x hx hp => hlater x (hmem x hx hp)⟩
  rintro ⟨v, hv, he⟩
  exact hrev (List.any_eq_true.mpr ⟨v, hv, decide_eq_true he⟩)

theorem revokeWorkloadGrants_granting {attemptId : String}
    (h : revokeWorkloadGrants env p attemptId key clock db = .ok (db', response)) :
    Granting db db' := by
  simp only [revokeWorkloadGrants, block_ok] at h
  obtain ⟨-, -, _, -, -, h⟩ := h
  refine once_granting h fun db₁ _ h₁ hs => ?_
  simp only [revokeWorkloadGrants.revoke, pure_ok, Prod.mk.injEq] at h₁
  obtain ⟨rfl, -⟩ := h₁
  exact .revoke attemptId _ hs.managed hs.grants hs.revocations

/-- The first execution of a revocation leaves a tombstone. -/
theorem revokeWorkloadGrants_revoked {attemptId : String}
    (h : revokeWorkloadGrants env p attemptId key clock db = .ok (db', response))
    (hnew : db.operation p.id "workload.revoke" key = none) : db'.Revoked attemptId := by
  simp only [revokeWorkloadGrants, block_ok] at h
  obtain ⟨-, -, _, -, -, h⟩ := h
  rcases once_cases h with ⟨o, ho, -⟩ | ⟨-, db₁, h₁, rfl⟩
  · simp [hnew] at ho
  · simp only [revokeWorkloadGrants.revoke, pure_ok, Prod.mk.injEq] at h₁
    obtain ⟨rfl, -⟩ := h₁
    show ∃ v ∈ (if db.revocations.any (·.attemptId = attemptId) then
      db.revocations else db.revocations ++ [_]), _
    split_ifs with hany
    · obtain ⟨v, hmem, he⟩ := List.any_eq_true.mp hany
      exact ⟨v, hmem, by simpa using he⟩
    · exact ⟨_, List.mem_append_right _ (List.mem_singleton.mpr rfl), rfl⟩

end Service

/-- **What a command does to the workloads of a space.** -/
theorem Command.run_granting {d : Dialect} {env : Env} {db' : Db} {p : Principal}
    {response : Response} (c : Command) (h : c.run d env p clock db = .ok (db', response)) :
    Granting db db' := by
  cases c with
  | enableManagedSpace job foreign key => exact Service.enableManagedSpace_granting h
  | retireManagedSpace job key => exact Service.retireManagedSpace_granting h
  | createWorkloadGrant body key => exact Service.createWorkloadGrant_granting h
  | revokeWorkloadGrants attempt key => exact Service.revokeWorkloadGrants_granting h
  | _ => exact .same ((Command.run_did _ h).beside.workloads rfl)

/-- The attempt that the command revokes, if it succeeds and is not a replay. -/
def Command.revokes (d : Dialect) (env : Env) (p : Principal) (clock : Clock) (db : Db)
    (c : Command) :
    Option String :=
  match c with
  | .revokeWorkloadGrants attemptId key =>
    if (c.run d env p clock db).isOk ∧ db.operation p.id "workload.revoke" key = none then
      some attemptId else none
  | _ => none

theorem Db.Emitted.workloads {db' : Db} {k : Nat} (h : Db.Emitted clock db k db') :
    db.SameWorkloads db' := by
  induction h with
  | none => exact ⟨rfl, rfl, rfl⟩
  | more _ _ type principalId recordId payload ih => exact ⟨ih.managed, ih.grants, ih.revocations⟩

theorem Transferred.granting {ids : List Nat} {db' : Db} (ht : Transferred clock db ids db') :
    Granting db db' := by
  cases ht with
  | wrote l _ he =>
    exact .same ⟨he.workloads.managed, he.workloads.grants, he.workloads.revocations⟩
  | pruned keep l _ | prunedEvents ids => exact .same ⟨rfl, rfl, rfl⟩

end Hf2l.Exchange
