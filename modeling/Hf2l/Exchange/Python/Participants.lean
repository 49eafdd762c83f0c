import Hf2l.Exchange.Python.Projection

/-!
# `Hf2l.Exchange.Python.Participants`: the tables of the participants

A step changes the list of executions, the list of PUTs and the log of calls in few ways.
`Staffed`, `Queued` and `Logged` list them, one table each, for the invariants that do not
depend on what the other tables do in the same step.
-/

set_option autoImplicit false

namespace Hf2l.Exchange.Python

open Lib

/-- The execution stands at another program point, with the same snapshot. -/
structure Execution.Resumes (e e' : Execution) : Prop where
  id : e'.id = e.id
  attempt : e'.attempt = e.attempt
  acquiredAt : e'.acquiredAt = e.acquiredAt
  coherent : e.Coherent → e'.Coherent
  early : e'.phase.early = true → e.phase.early = true

/-- The program points of a PUT before its call. -/
def PutPhase.early : PutPhase → Bool
  | .admitted => true
  | .exposed => true
  | .calling _ => false
  | .ended => false

namespace Sys

section Tables

variable (s : Sys) (db : Db)

/-- The executions after a step. -/
inductive Staffed : List Execution → Prop
  | same : Staffed s.executions
  | join (a : TransferAttempt) (now : Time) (h : Spawned s.db.ledger db.ledger a now) :
    Staffed (s.executions ++ [{ id := s.tick, attempt := a, acquiredAt := now }])
  | resume (e e' : Execution) (he : e ∈ s.executions) (h : e.Resumes e') :
    Staffed (Table.put Execution.id e' s.executions)
  | leave (id : Nat) : Staffed (s.executions.filter (·.id ≠ id))

/-- The PUTs after a step. -/
inductive Queued : List Put → Prop
  | same : Queued s.puts
  | join (p : Put) (hid : p.id = s.tick) (h : Marked s.db.ledger db.ledger p.handle) : Queued
    (s.puts ++ [p])
  | resume (p p' : Put) (hp : p ∈ s.puts) (hid : p'.id = p.id) (hh : p'.handle = p.handle)
    (hearly : p'.phase.early = true → p.phase.early = true) : Queued (Table.put Put.id p' s.puts)
  | leave (id : Nat) : Queued (s.puts.filter (·.id ≠ id))

/-- The participant that makes the call: an execution, with its lease, or a PUT. -/
inductive Makes (c : Call) : Prop
  | execution (e : Execution) (he : e ∈ s.executions) (hp : e.phase = .due)
    (hk : callKind e.attempt.state = some c.kind) (hid : c.attemptId = e.attempt.id)
    (hkey : c.key = e.attempt.objectKey) (ht : c.token = e.attempt.token)
  | put (p : Put) (hp : p ∈ s.puts) (hph : p.phase = .exposed) (hk : c.kind = .put)
    (hid : c.attemptId = p.handle.attemptId) (hkey : c.key = p.handle.objectKey)
    (ht : c.token = some p.handle.token)

/-- The log of calls after a step. -/
inductive Logged : List Call → Prop
  | same : Logged s.calls
  | start (c : Call) (hid : c.id = s.tick) (hstart : c.startedAt = s.tick) (hend : c.endedAt = none)
    (hm : s.Makes c) : Logged (s.calls ++ [c])
  | stop (id : Nat) : Logged (s.endCall id).calls

end Tables

variable {s s' : Sys} {db : Db}

theorem Rest.executions (h : s.Rest db s') : s.Staffed db s'.executions := by
  cases h with
  | spawn a now h => exact .join a now h
  | go e e' he h => exact .resume e e' he ⟨h.id, h.attempt, h.acquiredAt, h.coherent, h.early⟩
  | leave id => exact .leave id
  | begin e kind he hp _ =>
    refine .resume e { e with phase := .calling s.tick } he
      ⟨rfl, rfl, rfl, fun h => ⟨h.worked, ?_⟩, by simp [Phase.early]⟩
    have := h.phase
    rwa [hp] at this
  | answer e c o he hp ho =>
    refine .resume e { e with phase := .returned c o } he
      ⟨rfl, rfl, rfl, fun h => ⟨h.worked, ?_, ho⟩, by simp [Phase.early]⟩
    have := h.phase
    rwa [hp] at this
  | fail e c f he hp =>
    have hresume : s.Staffed db (Table.put Execution.id
        { e with resolved := !f.uncertain, phase := .handling f } s.executions) :=
      .resume e _ he ⟨rfl, rfl, rfl, fun h => ⟨h.worked, rfl⟩, by simp [Phase.early]⟩
    cases hf : f.uncertain <;> simpa [hf, update, endCall] using hresume
  | _ => exact .same

theorem Rest.puts (h : s.Rest db s') : s.Queued db s'.puts := by
  cases h with
  | admitPut p hid _ h => exact .join p hid h
  | exposePut p t hp hph _ =>
    exact .resume p { p with phase := .exposed } hp rfl rfl (by simp [hph, PutPhase.early])
  | startPut p hp _ =>
    exact .resume p { p with phase := .calling s.tick } hp rfl rfl (by simp [PutPhase.early])
  | putEnds p c hp _ =>
    exact .resume p { p with phase := .ended } hp rfl rfl (by simp [PutPhase.early])
  | leavePut id => exact .leave id
  | fail e c f _ _ => cases hf : f.uncertain <;> exact .same
  | _ => exact .same

theorem Rest.calls (h : s.Rest db s') : s.Logged s'.calls := by
  cases h with
  | begin e kind he hp hk => exact .start _ rfl rfl rfl (.execution e he hp hk rfl rfl rfl)
  | startPut p hp hph => exact .start _ rfl rfl rfl (.put p hp hph rfl rfl rfl rfl)
  | answer e c o _ _ _ | callEnds c | putEnds p c _ _ => exact .stop c
  | fail e c f _ _ =>
    cases hf : f.uncertain
    · exact .stop c
    · exact .same
  | _ => exact .same

theorem Rest.prunings (h : s.Rest db s') {p : Pruning} (hp : p ∈ s'.prunings) :
    p ∈ s.prunings ∨ ∀ id ∈ p.rows.attempts, Selectable db.ledger id := by
  cases h with
  | selectPruned q hq =>
    rcases Table.mem_concat.mp hp with hp | rfl
    · exact Or.inl hp
    · exact Or.inr hq
  | leavePruning id => exact Or.inl (List.mem_filter.mp hp).1
  | fail e c f _ _ =>
    cases hf : f.uncertain <;> simp [hf, update, endCall] at hp <;> exact Or.inl hp
  | _ => exact Or.inl hp

/-- The execution of a step is one from before, at another program point, or it is new. -/
theorem Staffed.mem {es : List Execution} (h : s.Staffed db es) {e' : Execution} (he' : e' ∈ es) :
    (∃ e ∈ s.executions, e.Resumes e') ∨
      ∃ a now, Spawned s.db.ledger db.ledger a now ∧
        e' = { id := s.tick, attempt := a, acquiredAt := now } := by
  have hold : e' ∈ s.executions → ∃ e ∈ s.executions, e.Resumes e' :=
    fun hmem => ⟨e', hmem, rfl, rfl, rfl, id, id⟩
  cases h with
  | same => exact Or.inl (hold he')
  | join a now h =>
    rcases List.mem_append.mp he' with he' | he'
    · exact Or.inl (hold he')
    · exact Or.inr ⟨a, now, h, List.mem_singleton.mp he'⟩
  | resume e x he h =>
    rcases Table.of_mem_put he' with ⟨he', -⟩ | rfl
    · exact Or.inl (hold he')
    · exact Or.inl ⟨e, he, h⟩
  | leave id => exact Or.inl (hold (List.mem_filter.mp he').1)

theorem Queued.mem {ps : List Put} (h : s.Queued db ps) {p' : Put} (hp' : p' ∈ ps) :
    (∃ p ∈ s.puts, p'.id = p.id ∧ p'.handle = p.handle ∧
      (p'.phase.early = true → p.phase.early = true)) ∨ p'.id = s.tick ∧
      Marked s.db.ledger db.ledger p'.handle := by
  have hold : p' ∈ s.puts → ∃ p ∈ s.puts, p'.id = p.id ∧ p'.handle = p.handle ∧
      (p'.phase.early = true → p.phase.early = true) :=
    fun hmem => ⟨p', hmem, rfl, rfl, id⟩
  cases h with
  | same => exact Or.inl (hold hp')
  | join p hid h =>
    rcases Table.mem_concat.mp hp' with hp' | rfl
    · exact Or.inl (hold hp')
    · exact Or.inr ⟨hid, h⟩
  | resume p x hp hid hh hearly =>
    rcases Table.of_mem_put hp' with ⟨hp', -⟩ | rfl
    · exact Or.inl (hold hp')
    · exact Or.inl ⟨p, hp, hid, hh, hearly⟩
  | leave id => exact Or.inl (hold (List.mem_filter.mp hp').1)

/-- A call in the log after the provider ended one. -/
theorem mem_endCall {id : Nat} {c' : Call} (h : c' ∈ (s.endCall id).calls) : ∃ c ∈ s.calls,
    c' = c ∧ (c.id = id → c.endedAt ≠ none) ∨
    c' = { c with endedAt := some s.tick } ∧ c.id = id ∧ c.endedAt = none := by
  obtain ⟨c, hc, rfl⟩ := List.mem_map.mp h
  refine ⟨c, hc, ?_⟩
  split_ifs with hend
  · exact Or.inr ⟨rfl, hend⟩
  · exact Or.inl ⟨rfl, fun hid hnone => hend ⟨hid, hnone⟩⟩

end Sys

end Hf2l.Exchange.Python
