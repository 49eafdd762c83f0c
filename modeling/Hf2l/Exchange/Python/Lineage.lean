import Hf2l.Exchange.FedAvg.Turns
import Hf2l.Exchange.Python.Integrity
import Hf2l.Exchange.Registry.Fencing

/-!
# `Hf2l.Exchange.Python.Lineage`: the history of models of the Python service

The runs of a space with the profile `fedavg.v1`, watched by a trace. Until the space is retired
the targets of `main` are one line of models.
-/

set_option autoImplicit false

namespace Hf2l.Exchange.Python

open Lib Lib.Checked
open FedAvg (Trace History Profiled Linear traced)

/-- What holds of the rows and the trace in every run. -/
structure Watched (s : Db × Trace) : Prop where
  enrolled : s.1.Enrolled
  upheld : Upheld s.1
  history : s.1.retired = true ∨ Profiled s.1 ∧ History s.1 s.2

/-- A step keeps the history, if the profile of federated averaging accepts no more than
`FedAvg.profile`. -/
theorem Watched.stepped {d e : Dialect} {env : Env} {clock : Clock} {db db' : Db} {t : Trace}
    {call : Option (Principal × Command)} {ids : List Nat}
    (hd : e.profiles "fedavg.v1" = .ok FedAvg.profile)
    (hrefines : ∀ k, db.ledger.space.profile = "fedavg.v1" → Service.Committed d db k db' →
      Service.Committed e db k db')
    (h : Watched (db, t)) (hs : Stepped d env clock db call ids db') :
    db'.retired = true ∨ Profiled db' ∧ History db' (t.extend db db') := by
  cases hs with
  | failed _ _ _ =>
    refine h.history.imp id fun ⟨hp, hh⟩ => ⟨hp, hh.extend ?_ (.of_eq rfl rfl) (.of_reference rfl)⟩
    exact fun r hr _ _ => ⟨r, hr, .refl r⟩
  | command p c _ hrun =>
    have hc := c.run_committed hrun
    cases hret : db'.retired with
    | true => exact Or.inl rfl
    | false =>
      -- A retired space stays retired.
      have hopen : ¬db.retired = true := fun hr => absurd (hc.retired hr) (by simp [hret])
      obtain ⟨hp, hh⟩ := h.history.resolve_left hopen
      have hi := h.upheld.intact.resolve_left hopen
      have hc := hrefines _ hp.profile hc
      exact Or.inr ⟨hp.committed hd hc hret, hh.committed hd hp hi h.enrolled.indexed hc hret⟩
  | transfer ht =>
    rcases h.history with hr | ⟨hp, hh⟩
    · exact Or.inl (ht.retired hr)
    · rcases h.upheld.intact with hr | hi
      · exact Or.inl (ht.retired hr)
      · exact Or.inr ⟨hp.transferred ht, hh.transferred hi ht⟩

theorem traced_watched (env : Env) (s : Db × Trace) (tx : Tx × Clock) (h : Watched s) :
    Watched (traced (step env) s tx) :=
  ⟨(step_swap env s.1 tx h.enrolled).2, step_upheld env s.1 tx h.upheld,
    h.stepped (e := dialect) rfl (fun _ _ hc => hc) (step_stepped env s.1 tx)⟩

/-- **Until a space of federated averaging is retired, the models that `main` pointed to are one
line.** Whatever the clocks read and whoever calls, the first has no provenance, each of the
others is a global model on the one before it, from at least two published updates of different
participants, and all of them are published and differ. -/
theorem fedavg_history_linear (env : Env) (spaceId : Id) (limits : Limits) (creator : Principal)
    (now : Time) (txs : List (Tx × Clock)) :
    Run.Always (traced (step env)) (fun s => s.1.retired = false → Linear s.1 s.2)
      (Db.created spaceId "fedavg.v1" limits creator now, ⟨[], []⟩) txs := by
  have hcreated : Watched (Db.created spaceId "fedavg.v1" limits creator now, ⟨[], []⟩) :=
    { enrolled := Db.created_enrolled spaceId "fedavg.v1" limits creator now
      upheld := created_upheld spaceId "fedavg.v1" limits creator now
      history := Or.inr ⟨⟨rfl, fun _ h => absurd h List.not_mem_nil⟩, rfl, rfl, trivial,
        fun _ h => absurd h List.not_mem_nil, fun _ h => absurd h List.not_mem_nil⟩ }
  refine Run.always_of_invariant (traced_watched env) (fun s h hr => ?_) hcreated txs
  rcases h.history with hret | ⟨-, hh⟩
  · simp [hr] at hret
  · rcases h.upheld.intact with hret | hi
    · simp [hr] at hret
    · exact hh.linear hi.keyed

end Hf2l.Exchange.Python
