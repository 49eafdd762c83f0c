import Hf2l.Exchange.Python.Accounting
import Hf2l.Exchange.Python.Effects
import Hf2l.Exchange.Service.Integrity

/-!
# `Hf2l.Exchange.Python.Integrity`: references, bases and visibility of the Python service

Every transaction of the Python service keeps a space intact until it is retired. Retirement
stops every record and leaves the references where they are, so it ends all three properties;
a retired space stays retired.
-/

set_option autoImplicit false

namespace Hf2l.Exchange.Python

open Lib Lib.Checked

/-- What holds of the rows in every run. -/
structure Upheld (db : Db) : Prop where
  sound : db.ledger.Sound
  intact : db.retired = true ∨ db.Intact

/-- A step of either service leaves the rows intact, or the space retired. -/
theorem Upheld.stepped {d : Dialect} {env : Env} {clock : Clock} {db db' : Db}
    {call : Option (Principal × Command)} {ids : List Nat} (h : Upheld db)
    (hs : Stepped d env clock db call ids db') : db'.retired = true ∨ db'.Intact := by
  cases hs with
  | failed _ _ _ => exact h.intact
  | command p c _ hrun =>
    have hc := c.run_committed hrun
    rcases h.intact with hr | hi
    · exact Or.inl (hc.retired hr)
    · exact hc.intact h.sound hi
  | transfer ht =>
    rcases h.intact with hr | hi
    · exact Or.inl (ht.retired hr)
    · exact Or.inr (ht.intact hi)

theorem step_upheld (env : Env) (db : Db) (tx : Tx × Clock) (h : Upheld db) :
    Upheld (step env db tx) :=
  ⟨(step_effect env h.sound tx).sound h.sound, h.stepped (step_stepped env db tx)⟩

theorem created_upheld (spaceId profile : String) (limits : Limits) (creator : Principal)
    (now : Time) :
    Upheld (Db.created spaceId profile limits creator now) where
  sound := (Db.created_accounted spaceId profile limits creator now).toSound
  intact := Or.inr
    { references := fun _ h => absurd h List.not_mem_nil
      bases := fun _ h => absurd h List.not_mem_nil
      shared := fun _ h => absurd h List.not_mem_nil
      keyed := List.nodup_nil
      kinds := List.nodup_nil
      based := fun _ h => absurd h List.not_mem_nil }

/-- **Until a space is retired its references point to published and shared records, the bases
of its published records are published, and a record is shared exactly when the policy of its
kind says so.** -/
theorem referential_integrity (env : Env) (spaceId profile : String) (limits : Limits)
    (creator : Principal) (now : Time) (txs : List (Tx × Clock)) :
    Run.Always (step env) (fun db => db.retired = false → db.Integral)
      (Db.created spaceId profile limits creator now) txs := by
  refine Run.always_of_invariant (step_upheld env) (fun db h hr => ?_)
    (created_upheld spaceId profile limits creator now) txs
  rcases h.intact with hret | hi
  · simp [hr] at hret
  · exact hi.toIntegrity

end Hf2l.Exchange.Python
