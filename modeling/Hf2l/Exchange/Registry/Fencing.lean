import Hf2l.Exchange.Go.Accounting
import Hf2l.Exchange.Ledger.Evolution
import Hf2l.Exchange.Python.Accounting
import Hf2l.Exchange.Registry.Swaps

/-!
# `Hf2l.Exchange.Registry.Fencing`: references of the two services

A transaction of a transfer does not touch the references, and a command does to them what its
label says. So the runs of both services fence their references, under any clock readings and
in any order of transactions.
-/

set_option autoImplicit false

namespace Hf2l.Exchange

open Lib Lib.Checked Lib.Register

section
variable {d : Dialect} {env : Env} {clock : Clock} {db db' : Db}
  {call : Option (Principal × Command)} {ids : List Nat} (h : Stepped d env clock db call ids db')
include h

theorem Stepped.swap :
    Swap db db' (call.elim .stay fun pc => pc.2.outcome d env pc.1 clock db) := by
  cases h with
  | failed _ _ hfail =>
    cases call with
    | none => exact .stay rfl
    | some pc =>
      obtain ⟨e, he⟩ := hfail pc.1 pc.2 rfl
      rw [Option.elim_some, Command.outcome_error he]
      exact .stay rfl
  | command p c _ h =>
    rw [Option.elim_some, Command.outcome_ok h]
    exact c.run_swap h
  | transfer h => exact .stay h.registry

theorem Stepped.enrolled {w : Allowance} {label : Label String Id}
    (hlabel : call.elim .stay (fun pc => pc.2.outcome d env pc.1 clock db) = label)
    (he : Effect w db.ledger db'.ledger) (hdb : db.Enrolled) :
    Swap db db' label ∧ db'.Enrolled := by
  have hswap := hlabel ▸ h.swap
  exact ⟨hswap, hdb.next hswap (he.sound hdb.sound) (he.minted_le hdb.sound)⟩

end

namespace Python

/-- What the transaction is for the references. -/
def label (env : Env) (db : Db) (tx : Tx × Clock) : Label String Id :=
  match tx.1 with
  | .command p c => c.outcome dialect env p tx.2 db
  | _ => .stay

theorem step_swap (env : Env) (db : Db) (tx : Tx × Clock) (h : db.Enrolled) :
    Swap db (step env db tx) (label env db tx) ∧ (step env db tx).Enrolled := by
  refine (step_stepped env db tx).enrolled ?_ (step_effect env h.sound tx) h
  obtain ⟨tx, clock⟩ := tx
  cases tx <;> rfl

end Python

namespace Go

/-- What the transaction is for the references. -/
def label (env : Env) (db : Db) (tx : Tx × Clock) : Label String Id :=
  match tx.1 with
  | .command p c => c.outcome dialect env p tx.2 db
  | _ => .stay

theorem step_swap (env : Env) (db : Db) (tx : Tx × Clock) (h : db.Enrolled) :
    Swap db (step env db tx) (label env db tx) ∧ (step env db tx).Enrolled := by
  refine (step_stepped env db tx).enrolled ?_ (step_effect env h.sound tx fun _ => trivial) h
  obtain ⟨tx, clock⟩ := tx
  cases tx <;> rfl

end Go

theorem Db.created_enrolled (spaceId profile : String) (limits : Limits) (creator : Principal)
    (now : Time) :
    (Db.created spaceId profile limits creator now).Enrolled where
  sound := (Db.created_accounted spaceId profile limits creator now).toSound
  indexed := ⟨List.nodup_nil, List.nodup_nil, fun _ h => absurd h List.not_mem_nil⟩
  fenced := Fenced.empty

/-- **References are compared and swapped, and fenced, in both services.** Along every run from a
new space, whatever the clocks read and whoever calls, the generation and the fence of a
reference count its effective moves and its acquisitions, and an acquisition that completes
replaces the target it was granted at. -/
theorem references_fenced (env : Env) (spaceId profile : String) (limits : Limits)
    (creator : Principal) (now : Time) :
    (∀ txs : List (Python.Tx × Clock),
        Fencing (Python.step env) (Python.label env)
          (Db.created spaceId profile limits creator now) txs) ∧
      ∀ txs : List (Go.Tx × Clock),
        Fencing (Go.step env) (Go.label env) (Db.created spaceId profile limits creator now) txs :=
  have hcreated := Db.created_enrolled spaceId profile limits creator now
  ⟨fencing_of_swap (Python.step_swap env) hcreated, fencing_of_swap (Go.step_swap env) hcreated⟩

end Hf2l.Exchange
