import Hf2l.Exchange.Go.Effects
import Hf2l.Exchange.Ledger.Admission
import Hf2l.Lib.Run

/-!
# `Hf2l.Exchange.Go.Accounting`: the accounts of the Go service

The Go service keeps all three properties of the accounts in every run, under any snapshots
and any outcomes. It avoids the two gaps of the Python service: `ReleaseRecord` discards an
attachment whose attempts are all settled, so that it never charges one that nobody can settle
(`not_stuck`), and `abandon` re-arms an attempt only while its marker is in the ledger, so
that it never charges an attachment again.
-/

set_option autoImplicit false

namespace Hf2l.Exchange.Go

open Lib

/-- An operator's repair. -/
def Tx.repairs : Tx → Bool
  | .repairMutations _ _ _ => true
  | _ => false

/-- The transactions may do everything but charge an attachment again, unless they are repairs. -/
def unrestricted (repairs : Prop) : Allowance := .free .go True (fun _ _ => repairs) False

theorem Tx.permitted_unrestricted {repairs : Prop} {tx : Tx} (h : tx.repairs = true → repairs) :
    tx.Permitted (unrestricted repairs) := by
  cases tx with
  | command p c => exact ⟨fun _ _ _ => trivial, fun _ => trivial⟩
  | finishPut handle => trivial
  | commit a o => exact ⟨fun _ => trivial, trivial, fun _ _ => trivial⟩
  | settleMutation a => exact fun _ _ => trivial
  | repairMutations ids stopped quiesced => exact ⟨fun _ _ _ _ => trivial, fun _ _ => h rfl⟩
  | _ => trivial

/-- `ReleaseRecord` charges an attachment only if an attempt is left to clean. -/
theorem not_stuck (l : Ledger) (b : Blob) : ¬ l.Stuck ReleaseRule.go b := by
  rintro ⟨hcharges, hopen⟩
  have habsent : ReleaseRule.go.absent (l.attemptsOf b.id) = false := by
    simp only [ReleaseRule.charges, Bool.and_eq_true, Bool.not_eq_true'] at hcharges
    exact hcharges.2
  refine absurd habsent ?_
  -- The rule asks exactly whether all attempts are settled.
  rw [Bool.not_eq_false]
  refine List.all_eq_true.mpr fun a ha => ?_
  by_contra hset
  exact hopen (Ledger.open_iff_attemptsOf.mpr ⟨a, ha, by simpa [ReleaseRule.go] using hset⟩)

/-- What holds of the ledger in every run. -/
structure Kept (l : Ledger) : Prop where
  regular : l.Regular
  covered : l.Covered ReleaseRule.go

variable (env : Env)

theorem step_effect {db : Db} (hs : db.ledger.Sound) (tx : Tx × Clock) {repairs : Prop}
    (h : tx.1.repairs = true → repairs) :
    Effect (unrestricted repairs) db.ledger (step env db tx).ledger := by
  unfold step
  split
  · rename_i db' hrun
    exact Tx.run_effect rfl hs (Tx.permitted_unrestricted h) hrun
  · exact .quiet (Changes.refl _)

theorem step_kept (db : Db) (tx : Tx × Clock) (h : Kept db.ledger) :
    Kept (step env db tx).ledger := by
  have hs := h.regular.accounted.toSound
  have he : Effect (unrestricted True) db.ledger (step env db tx).ledger :=
    step_effect env hs tx fun _ => trivial
  refine ⟨he.regular ReleaseRule.go_lawful trivial h.regular, ?_⟩
  have hiff := he.covered_iff ReleaseRule.go_lawful trivial (fun _ => id) hs h.regular.rested
    h.covered
  exact hiff.mpr fun r _ b _ => not_stuck db.ledger b

theorem step_within (db : Db) (tx : Tx × Clock) (h : Kept db.ledger ∧ db.ledger.Within)
    (ht : tx.1.repairs = false) :
    Kept (step env db tx).ledger ∧ (step env db tx).ledger.Within := by
  have he : Effect (unrestricted False) db.ledger (step env db tx).ledger :=
    step_effect env h.1.regular.accounted.toSound tx fun hr => by simp [ht] at hr
  exact ⟨step_kept env db tx h.1,
    he.within ReleaseRule.go_lawful trivial (fun _ _ (hf : False) => hf.elim) h.1.regular h.2⟩

theorem created_kept (spaceId profile : String) (limits : Limits) (creator : Principal)
    (now : Time) :
    Kept (Db.created spaceId profile limits creator now).ledger where
  regular := Db.created_regular spaceId profile limits creator now
  covered b hb := by simp [Db.created] at hb

/-- **The accounts of the Go service.** After any sequence of transactions the counters count
the rows, every charge has an attempt that is not settled, and without operator repairs the
bytes are within the limit. -/
theorem accounts_hold (spaceId profile : String) (limits : Limits) (creator : Principal)
    (now : Time) (txs : List (Tx × Clock)) :
    (run env (Db.created spaceId profile limits creator now) txs).ledger.Balanced ∧
      (∀ b ∈ (run env (Db.created spaceId profile limits creator now) txs).ledger.blobs,
        b.pendingDeletion = true →
          ∃ a ∈ (run env (Db.created spaceId profile limits creator now) txs).ledger.attempts,
            a.blobId = b.id ∧ ¬ (a.state = .cleaned ∧ a.mutationTokens = [])) ∧
      ((∀ tx ∈ txs, tx.1.repairs = false) →
        (run env (Db.created spaceId profile limits creator now) txs).ledger.space.allocated +
            (run env (Db.created spaceId profile limits creator now) txs).ledger.space.reclaiming ≤
          (run env (Db.created spaceId profile limits creator now)
            txs).ledger.space.quotaBytes) := by
  have hcreated := created_kept spaceId profile limits creator now
  have hkept := Run.invariant (P := fun db : Db => Kept db.ledger) (step_kept env) hcreated txs
  refine ⟨hkept.regular.accounted.balanced, ?_, ?_⟩
  · intro b hb hp
    obtain ⟨a, ha, hab, hset⟩ := hkept.covered b hb hp
    exact ⟨a, ha, hab, by simpa [ReleaseRule.go] using hset⟩
  · intro hrepairs
    have hevery : Run.Every (step env) (fun _ (tx : Tx × Clock) => tx.1.repairs = false)
        (Db.created spaceId profile limits creator now) txs := Run.every_of_mem hrepairs _
    have hwithin :=
      Run.keeps (P := fun db : Db => Kept db.ledger ∧ db.ledger.Within) (step_within env)
      ⟨hcreated, Db.created_within spaceId profile limits creator now⟩ hevery
    exact hwithin.2.bytes

namespace Sample

open Exchange.Sample

/-- A draft is opened, its upload is initiated, and the draft is withdrawn. -/
def withdrawnUpload : List (Tx × Clock) :=
  [(.command owner (.registerType "note" { schema := .obj [] } "type"), still 0),
    (.command owner (.createRecord ⟨"note", "0", .obj [], [⟨"a", 10, sha256, "x"⟩]⟩ "first"),
      still 0),
    (.initiate owner "1" "2", still 1), (.command owner (.withdrawRecord "1"), still 2)]

end Sample

/-- The withdrawn upload fills the space with a charge. -/
theorem accounts_hold_withdrawnUpload :
    (run Sample.env (Db.created "space" "generic.v1" Sample.limits Sample.owner 0)
        Sample.withdrawnUpload).ledger.space.reclaiming = 10 ∧
      (run Sample.env (Db.created "space" "generic.v1" Sample.limits Sample.owner 0)
          Sample.withdrawnUpload).ledger.space.allocated +
        (run Sample.env (Db.created "space" "generic.v1" Sample.limits Sample.owner 0)
          Sample.withdrawnUpload).ledger.space.reclaiming ≤
      (run Sample.env (Db.created "space" "generic.v1" Sample.limits Sample.owner 0)
        Sample.withdrawnUpload).ledger.space.quotaBytes :=
  ⟨by decide +kernel,
    (accounts_hold Sample.env "space" "generic.v1" Sample.limits Sample.owner 0
      Sample.withdrawnUpload).2.2
      (by decide)⟩

end Hf2l.Exchange.Go
