import Hf2l.Exchange.Registry.Registers
import Hf2l.Exchange.Service.Integrity
import Hf2l.Exchange.Service.Log

/-!
# `Hf2l.Exchange.Service.Replays`: commands that are sent again

A guarded command stores its response under the caller, its scope and its key. As long as the
operation is there, the command finds it before it does anything, so that a replay writes
nothing, and a request with another body is refused.

`complete` is the exception: it does not look for its operation when the acquisition is
completed, but compares the request with the row. That answers the same way because a completed
acquisition is never written again (`Committed.completed_mem`), and because whenever the operation
of a completion is stored its acquisition is completed (`Db.Settled`).
-/

set_option autoImplicit false

namespace Hf2l.Exchange

open Lib Lib.Checked

/-! ### Stored operations -/

/-- An operation that is stored is found again as long as operations are only appended. -/
theorem Db.operation_prefix {db db' : Db} {principalId : Id} {scope key : String} {o : Operation}
    (h : db.operations <+: db'.operations) (ho : db.operation principalId scope key = some o) :
    db'.operation principalId scope key = some o := by
  obtain ⟨more, hmore⟩ := h
  unfold Db.operation at ho ⊢
  rw [← hmore, List.find?_append, ho]
  rfl

/-- The operation that the first execution stores. -/
theorem Db.operation_stored {db db₁ : Db} {principalId : Id} {scope key : String} (hash : String)
    (response : Response) (now : Time) (h : db.operation principalId scope key = none)
    (hl : db₁.operations = db.operations) :
    Db.operation {
      db₁ with operations := db₁.operations ++ [⟨principalId, scope, key, hash, response, now⟩] }
      principalId scope key = some ⟨principalId, scope, key, hash, response, now⟩ := by
  unfold Db.operation at h ⊢
  rw [hl, List.find?_append, h]
  simp

/-- The operation of the command is stored, for its body. -/
def Command.Stores (c : Command) (env : Env) (p : Principal) (db : Db) (stored : Response) : Prop :=
  ∃ g o, c.guard = some g ∧ db.operation p.id g.scope g.key = some o ∧
    o.requestHash = env.digest g.request ∧ o.response = stored

/-- A completion that is answered from its row. -/
def Command.Settles (c : Command) (db : Db) : Prop :=
  ∃ id body key row, c = .complete id body key ∧ db.coordination id = some row ∧
    row.state = .completed

namespace Command.Executed

variable {env : Env} {p : Principal} {clock : Clock} {db db' : Db} {c : Command}
  {response : Response}

/-- After a guarded command its operation is stored. -/
theorem stores (h : c.Executed env p clock db db' response) (hg : c.guard ≠ none)
    (hs : ¬ c.Settles db) :
    ∃ stored, c.Stores env p db' stored ∧ c.Answers db' stored response := by
  cases h with
  | unguarded h _ => exact absurd h hg
  | settled id body key row hc hrow hdone _ _ =>
    exact absurd ⟨id, body, key, row, hc, hrow, hdone⟩ hs
  | @replayed g o _ hg ho hh ha => exact ⟨o.response, ⟨g, o, hg, ho, hh, rfl⟩, ha⟩
  | @first g k db₁ _ stored _ now hg ho hl h ha =>
    refine ⟨stored,
      ⟨g, ⟨p.id, g.scope, g.key, env.digest g.request, stored, now⟩, hg, ?_, rfl, rfl⟩, ha⟩
    rw [h]
    exact Db.operation_stored _ _ _ ho hl.operations

/-- **A replay writes nothing**, and answers what was stored. -/
theorem replay {stored : Response} (hst : c.Stores env p db stored) (hs : ¬ c.Settles db)
    (h : c.Executed env p clock db db' response) : db' = db ∧ c.Answers db stored response := by
  obtain ⟨g, o, hg, ho, -, rfl⟩ := hst
  cases h with
  | unguarded h _ => simp [hg] at h
  | settled id body key row hc hrow hdone _ _ =>
    exact absurd ⟨id, body, key, row, hc, hrow, hdone⟩ hs
  | replayed hg' ho' _ ha =>
    obtain rfl := Option.some.inj (hg.symm.trans hg')
    obtain rfl := Option.some.inj (ho.symm.trans ho')
    exact ⟨rfl, ha⟩
  | first hg' ho' _ _ _ =>
    obtain rfl := Option.some.inj (hg.symm.trans hg')
    simp [ho] at ho'

/-- **Under a stored key another body is refused.** -/
theorem conflict {c' : Command} {g g' : Guard} {stored : Response} (hst : c.Stores env p db stored)
    (hg : c.guard = some g) (hg' : c'.guard = some g') (hscope : g'.scope = g.scope)
    (hkey : g'.key = g.key) (hd : env.digest g'.request ≠ env.digest g.request)
    (hs : ¬ c'.Settles db) (h : c'.Executed env p clock db db' response) : False := by
  obtain ⟨g₀, o, hg₀, ho, hh, -⟩ := hst
  obtain rfl := Option.some.inj (hg.symm.trans hg₀)
  rw [← hscope, ← hkey] at ho
  cases h with
  | unguarded h _ => simp [hg'] at h
  | settled id body key row hc hrow hdone _ _ => exact hs ⟨id, body, key, row, hc, hrow, hdone⟩
  | replayed hg₁ ho' hh' _ =>
    obtain rfl := Option.some.inj (hg'.symm.trans hg₁)
    obtain rfl := Option.some.inj (ho.symm.trans ho')
    exact hd (hh'.symm.trans hh)
  | first hg₁ ho' _ _ _ =>
    obtain rfl := Option.some.inj (hg'.symm.trans hg₁)
    simp [ho] at ho'

end Command.Executed

/-! ### Completions -/

/-- No command has the scope of a completion but the completion itself. -/
theorem Command.guard_complete {c : Command} {g : Guard} {id : Id} (hg : c.guard = some g)
    (hs : g.scope = "acquisition.complete:" ++ id) : ∃ body key, c = .complete id body key := by
  -- The scopes differ in their first letter, or in the one after the dot.
  have hfirst : g.scope.toList[0]? = some 'a' := by
    rw [hs, String.toList_append]
    rfl
  have hsecond : g.scope.toList[13]? = some 'o' := by
    rw [hs, String.toList_append]
    rfl
  cases c with
  | complete id' body key =>
    obtain rfl := Option.some.inj hg
    exact ⟨body, key, by rw [(String.append_right_inj _).mp hs]⟩
  | createRecord body key | publishRecord id' key | putReference name id' token key
  | enableManagedSpace jobId foreign key | retireManagedSpace jobId key
  | createWorkloadGrant body key | revokeWorkloadGrants attemptId key
  | registerType kind body key =>
    simp [← Option.some.inj hg] at hfirst
  | acquire body key => simp [← Option.some.inj hg] at hsecond
  | patchRecord _ _ _ | withdrawRecord _ | purgeRecord _ | renew _ _ | abandon _ _
    | updateSpaceLimits _
  | putMember _ _ | putPolicy _ _ =>
    simp [Command.guard] at hg

/-- The acquisition is completed as the body asks. -/
structure Db.CompletedAs (db : Db) (id : Id) (body : CompletionBody) (row : Coordination) :
    Prop where
  found : db.coordination id = some row
  done : row.state = .completed
  fence : row.fence = body.fence
  result : row.resultRecordId = some body.resultRecordId

/-- An acquisition whose completion is stored is completed. -/
def Db.Settled (db : Db) : Prop :=
  ∀ o ∈ db.operations, ∀ id, o.scope = "acquisition.complete:" ++ id →
    ∃ row, db.coordination id = some row ∧ row.state = .completed

namespace Service

variable {d : Dialect} {env : Env} {db db' : Db} {p : Principal} {clock : Clock}
  {response : Response}

/-- A completed acquisition answers from its row, or refuses. -/
theorem complete_settled {id : Id} {body : CompletionBody} {key : String} {row : Coordination}
    (hrow : db.coordination id = some row) (hdone : row.state = .completed)
    (h : complete d env p id body key clock db = .ok (db', response)) :
    db' = db ∧ response = .acquisition (acquisitionDict db row) ∧ db.CompletedAs id body row := by
  simp only [complete, block_ok] at h
  obtain ⟨_, -, -, row', hrow', -, h⟩ := h
  obtain rfl := Option.some.inj (hrow.symm.trans (found_ok.mp hrow'))
  rw [if_pos hdone] at h
  simp only [block_ok, refuse_ok, not_or, not_not] at h
  obtain ⟨⟨hf, hr⟩, rfl, rfl⟩ := h
  exact ⟨rfl, rfl, hrow, hdone, hf, hr⟩

/-- After a completion that succeeded, the acquisition is completed as it asked. -/
theorem complete_completedAs {id : Id} {body : CompletionBody} {key : String} (hi : db.Indexed)
    (hset : db.Settled) (h : complete d env p id body key clock db = .ok (db', response)) :
    ∃ row, db'.CompletedAs id body row := by
  have hrun := h
  simp only [complete, block_ok] at h
  obtain ⟨_, -, -, row, hrow, -, h⟩ := h
  have hget := found_ok.mp hrow
  by_cases hdone : row.state = .completed
  · obtain ⟨rfl, -, has⟩ := complete_settled hget hdone hrun
    exact ⟨row, has⟩
  · rw [if_neg hdone] at h
    rcases once_cases h with ⟨o, ho, -⟩ | ⟨-, db₁, h₁, rfl⟩
    · -- The operation is stored, so that the acquisition would be completed.
      have hmem := List.mem_of_find?_eq_some ho
      have hscope : o.scope = "acquisition.complete:" ++ id := by
        have := List.find?_some ho
        simp only [decide_eq_true_eq] at this
        exact this.2.1
      obtain ⟨row', hrow', hdone'⟩ := hset o hmem id hscope
      obtain rfl := Option.some.inj (hget.symm.trans hrow')
      exact absurd hdone' hdone
    · simp only [complete.completeOnce, checkAttempt, block_ok, refuse_ok, found_ok, not_or,
        not_not] at h₁
      obtain ⟨reference, ⟨-, _, -, ⟨-, -, hf, -⟩, rfl⟩, -, result, hresult, -, _, -, _, -, -, rfl,
        -⟩ := h₁
      obtain ⟨hmem, hid⟩ := Table.get_mem hget
      refine ⟨completed row result.id, ?_, rfl, hf.symm, ?_⟩
      · show Table.get Coordination.id id
          (Table.put Coordination.id (completed row result.id) db.registry.coordinations) = _
        rw [← hid]
        exact Table.get_put_self hi.coordinations hmem rfl
      · rw [← (record_mem hresult).2]
        rfl

/-- **A completed acquisition is never written again.** -/
theorem Committed.completed_mem {k : Service.Deed} (hi : db.Indexed) (h : Committed d db k db')
    {row : Coordination} (hmem : row ∈ db.registry.coordinations) (hdone : row.state = .completed) :
    row ∈ db'.registry.coordinations := by
  -- An acquisition that is written is one that is active.
  have hput : ∀ {c : Coordination} {reference : Reference}, Held db c reference →
      ∀ c' : Coordination, c'.id = c.id →
      row ∈ Table.put Coordination.id c' db.registry.coordinations := by
    intro c reference hc c' hid
    refine Table.mem_put_of_ne hmem fun he => ?_
    rw [hi.coordinations.eq_of_key_eq hmem hc.mem (he.trans hid), hc.active] at hdone
    simp at hdone
  cases h with
  | idle _ h | manage m _ _ h | limits s _ h | policy policy policy' _ _ _ h
  | create r bs policy _ _ _ _ h | patch r metadata size base _ _ _ _ _ h
  | publish r policy t _ _ _ _ _ h | withdraw r now _ _ _ h | purge r _ _ _ _ _ h
  | retire m now _ h | createReference name r _ _ _ h | moveReference reference r _ _ _ h =>
    exact h.registry ▸ hmem
  | register kind roles visibility h =>
    rw [h.registry]
    unfold addPolicy
    split_ifs <;> exact hmem
  | acquire reference holder leaseUntil createdAt inputs _ _ h =>
    rw [h.registry]
    refine List.mem_append_left _ (List.mem_map.mpr ⟨row, hmem, ?_⟩)
    rw [if_neg fun ha => by simp [hdone] at ha]
  | renew c reference t hc h | abandon c reference hc h | complete c reference r hc _ _ _ h =>
    rw [h.registry]
    exact hput hc _ rfl

end Service

end Hf2l.Exchange
