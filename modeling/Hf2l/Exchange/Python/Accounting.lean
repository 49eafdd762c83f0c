import Hf2l.Exchange.Ledger.Accounts
import Hf2l.Exchange.Python.Effects
import Hf2l.Lib.Run

/-!
# `Hf2l.Exchange.Python.Accounting`: the byte accounts of the Python service

The counters of a space row count its rows after any sequence of transactions. The
transactions of executions carry an arbitrary snapshot and an arbitrary outcome here: the
accounts do not depend on the order in which executions interleave, nor on what they commit.
-/

set_option autoImplicit false

namespace Hf2l.Exchange.Python

open Lib

/-- Every transaction may do everything. -/
def anything : Allowance := .free .python False (fun _ _ => True) True

theorem Tx.permitted_anything (l : Ledger) (tx : Tx) : tx.Permitted anything l := by
  cases tx <;> simp [Tx.Permitted, anything, Allowance.free]

theorem step_effect (env : Env) {db : Db} (hs : db.ledger.Sound) (tx : Tx × Clock) :
    Effect anything db.ledger (step env db tx).ledger := by
  unfold step
  split
  · rename_i db' hrun
    exact Tx.run_effect rfl hs (Tx.permitted_anything _ _) hrun
  · exact .quiet (Changes.refl _)

theorem step_accounted (env : Env) (db : Db) (tx : Tx × Clock) (h : db.ledger.Accounted) :
    (step env db tx).ledger.Accounted :=
  (step_effect env h.toSound tx).accounted ReleaseRule.python_lawful h

/-- **After any sequence of transactions the counters of the space count its rows.** -/
theorem byte_accounts_balance (env : Env) (spaceId profile : String) (limits : Limits)
    (creator : Principal) (now : Time) (txs : List (Tx × Clock)) :
    (run env (Db.created spaceId profile limits creator now) txs).ledger.Balanced := by
  have h := Run.invariant (P := fun db : Db => db.ledger.Accounted) (step_accounted env)
    (Db.created_accounted spaceId profile limits creator now) txs
  exact h.balanced

end Hf2l.Exchange.Python
