import Hf2l.Exchange.Ledger.Pinned
import Hf2l.Exchange.Python.Deletion

/-!
# `Hf2l.Exchange.Python.Pinning`: published content is pinned

An object that a published record names is never deleted. It belongs to an attempt that is
`verified` and stays so until the record is stopped, and a cleanup works on an attempt behind
the barrier. This needs nothing of the operator: a repair does not touch a verified attempt
whose record is not stopped.
-/

set_option autoImplicit false

namespace Hf2l.Exchange.Python

open Lib
open Service (verifiedAsDeclared)

/-- Commits go in the order of `_execute`. -/
theorem Follows.orderly {s s' : TransferState} (h : Follows s s') :
    s ≠ .verified ∧ (s'.active = true → s.active = true) := by
  cases h with
  | failed _ hs => rcases hs with rfl | rfl | rfl <;> simp [TransferState.active]
  | _ => simp [TransferState.active]

namespace Sys

structure Fenced (s : Sys) : Prop extends Known s where
  barrier : ∀ e ∈ s.executions, e.attempt.state = .cleanup → s.db.ledger.Barrier e.attempt.id
  pinned : s.db.ledger.Pinned

/-- What publication promises: one attempt of an attachment is wanted, and what a published
record names is verified as it was declared. -/
structure ContentPinned (s : Sys) : Prop where
  single : ∀ a ∈ s.db.ledger.attempts, ∀ a' ∈ s.db.ledger.attempts, a.blobId = a'.blobId →
    a.state ∉ [TransferState.cleanup, .cleaned, .failed] →
      a'.state ∉ [TransferState.cleanup, .cleaned, .failed] →
    a = a'
  verified : ∀ r ∈ s.db.ledger.records, r.state = .published →
    ∀ b ∈ s.db.ledger.blobs, b.recordId = r.id → b.state = .verified ∧
    (∃ v, b.objectVersion = some v ∧ v ≠ "") ∧ b.verifiedSize = some b.size ∧
      b.verifiedSha256 = some b.sha256

/-- The step keeps what was declared at creation, and it starts no deletion of an object that a
published record names. -/
structure KeepsContent (env : Env) (s : Sys) (a : Action) : Prop where
  declared : ∀ b ∈ s.db.ledger.blobs, ∀ b' ∈ (s.step env a).db.ledger.blobs, b'.id = b.id →
    b'.size = b.size ∧ b'.sha256 = b.sha256
  spares : ∀ k ∈ (s.step env a).calls, k.kind = .cleanup → k.startedAt = s.tick →
    ∀ r ∈ s.db.ledger.records, r.state = .published → ∀ b ∈ s.db.ledger.blobs, b.recordId = r.id →
    b.objectKey ≠ some k.key

namespace Fenced

variable {s : Sys} (env : Env) {a : Action}

theorem orderly (h : s.Fenced) : (s.allowance a).Orderly := by
  intro id st st' hw
  obtain ⟨_, _, _, _, -, -, hcommits, -, rfl, rfl⟩ := h.advanced hw
  exact hcommits.follows.orderly

theorem lawful (s : Sys) (a : Action) : (s.allowance a).rule.Lawful := by
  rw [allowance_rule]
  exact ReleaseRule.python_lawful

theorem step (h : s.Fenced) : (s.step env a).Fenced where
  toKnown := h.toKnown.step env a
  barrier := h.toKnown.barrier_step env h.barrier
  pinned := by
    have heff := step_effect env h.regular.accounted.toSound h.linked a
    by_cases hf : ∃ id, (s.allowance a).forget id
    · -- A `prune` deletes rows behind the barrier, so none that is verified.
      obtain ⟨id, hf⟩ := hf
      obtain ⟨i, clock, p, hp, rfl, hi, -⟩ := allowance_forget hf
      rw [step_prune env hi]
      have hallow : s.allowance (.prune i clock) =
          (Tx.prune p.rows).allowance := by simp [allowance, transaction, hi]
      have hw := h.orderly (a := .prune i clock)
      rw [hallow] at hw
      have hc : Change (Tx.prune p.rows).allowance s.db.ledger _ :=
        .forget (fun x => x.id ∉ p.rows.attempts) fun x _ hx =>
          Or.inl (show x.id ∈ p.rows.attempts by simpa using hx)
      refine hc.pinned hw trivial (fun x hx hv hforget => ?_) h.pinned
      have hbarred := ((h.selected p hp x.id hforget).2 x hx rfl).1
      simp [TransferState.barred, hv] at hbarred
    · exact heff.pinned (lawful s a) h.orderly (s.allowance_matched a) (fun id hid => hf ⟨id, hid⟩)
        h.pinned

theorem contentPinned (h : s.Fenced) : s.ContentPinned where
  single x hx y hy hblob hax hay := by
    have hactive : ∀ st : TransferState, st ∉ [TransferState.cleanup, .cleaned, .failed] →
        st.active = true := by
      intro st hst
      cases st <;> simp [TransferState.active] at hst ⊢
    exact h.pinned.single x hx y hy hblob (hactive _ hax) (hactive _ hay)
  verified r hr hp b hb hrec := by
    have hv := h.pinned.verified r hr hp b hb hrec
    simp only [verifiedAsDeclared, Bool.and_eq_true, decide_eq_true_eq, Option.any_eq_true] at hv
    obtain ⟨⟨⟨hstate, v, hv, hne⟩, hsize⟩, hsha⟩ := hv
    exact ⟨hstate, ⟨v, hv, hne⟩, hsize, hsha⟩

/-- The object that a published record names is that of a verified attempt, and a cleanup is for
an attempt behind the barrier. -/
theorem spares (h : s.Fenced) {k : Call} (hk : k ∈ (s.step env a).calls) (hkind : k.kind = .cleanup)
    (hstart : k.startedAt = s.tick) {r : Record} (hr : r ∈ s.db.ledger.records)
    (hp : r.state = .published) {b : Blob} (hb : b ∈ s.db.ledger.blobs) (hrec : b.recordId = r.id) :
    b.objectKey ≠ some k.key := by
  intro hbk
  have hs := h.regular.accounted.toSound
  have hlive : ¬ s.db.ledger.Stopped b.id := by
    rintro ⟨c, hc, hcid, x, hx, hxc, hterm⟩
    obtain rfl : c = b := hs.blobs.eq_of_key_eq hc hb hcid
    rw [hs.records.eq_of_key_eq hx hr (hxc.trans hrec), hp] at hterm
    simp [RecordState.terminal] at hterm
  obtain ⟨x, hx, -, hxk, hxv⟩ := h.pinned.placed b hb hlive k.key hbk
  cases h.toKnown.started env hk hstart with
  | put p _ _ hput _ _ _ => simp [hkind] at hput
  | execution e he _ hcall _ hkey _ =>
    have hclean : e.attempt.state = .cleanup := callKind_cleanup (hkind ▸ hcall)
    -- Keys name their attempts, so the two attempts are one.
    have hid : x.id = e.attempt.id := by
      rw [← (h.keys x hx).2, hxk, hkey, (h.execution e he).key]
    have hbarred := (h.barrier e he hclean x hx hid).1
    simp [TransferState.barred, hxv] at hbarred

theorem keepsContent (h : s.Fenced) : s.KeepsContent env a where
  declared _ hb _ hb' hid :=
    (step_effect env h.regular.accounted.toSound h.linked a).declared
      (lawful s a) h.regular.accounted hb hb' hid
  spares _ hk hkind hstart _ hr hp _ hb hrec := h.spares env hk hkind hstart hr hp hb hrec

theorem created_fenced (spaceId profile : String) (limits : Limits) (creator : Principal)
    (now : Time) :
    (created spaceId profile limits creator now).Fenced where
  toKnown := (Guarded.created_guarded spaceId profile limits creator now).toKnown
  barrier := by simp [created]
  pinned :=
    { toAccounted := Db.created_accounted spaceId profile limits creator now
      upload := by simp [created, Db.created]
      single := by simp [created, Db.created]
      placed := by simp [created, Db.created]
      verified := by simp [created, Db.created] }

end Fenced

end Sys

/-- **Published content is pinned**, in every run of record and transfer operations. -/
theorem published_content_pinned (env : Env) (spaceId profile : String) (limits : Limits)
    (creator : Principal) (now : Time) (actions : List Action) :
    Run.Always (Sys.step env) Sys.ContentPinned (Sys.created spaceId profile limits creator now)
      actions ∧ Run.Every (Sys.step env) (Sys.KeepsContent env)
      (Sys.created spaceId profile limits creator now) actions := by
  have hcreated := Sys.Fenced.created_fenced spaceId profile limits creator now
  have hstep : ∀ s a, Sys.Fenced s → (s.step env a).Fenced := fun s a h => h.step env
  exact ⟨Run.always_of_invariant hstep (fun s h => h.contentPinned) hcreated actions,
    Run.every_of_invariant hstep (fun s a h => h.keepsContent env) hcreated actions⟩

end Hf2l.Exchange.Python
