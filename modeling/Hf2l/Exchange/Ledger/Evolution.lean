import Hf2l.Exchange.Ledger.Sound

/-!
# `Hf2l.Exchange.Ledger.Evolution`: what can become of an attempt

Every attempt after a change is new, or it is an attempt from before that went one of the ways
of `Evolves`. A property of single rows is then an invariant if new rows have it and every
way and the stop of its record keep it (`Effect.every_work`).
-/

set_option autoImplicit false

namespace Hf2l.Exchange

open Lib

namespace Work

/-- The record of the attempt is stopped. The lease stays. -/
def released (x : Work) : Work := { x with state := .cleanup, operation := .cleanup }

/-- The row of a repaired attempt. -/
def repaired (x : Work) (recover : Bool) : Work :=
  { x with
      mutationTokens := []
      operation := if recover then .upload else .cleanup
      state := if recover then .completing else .cleanup
      token := none }

end Work

/-- The attachment belongs to a stopped record. -/
def Ledger.Stopped (l : Ledger) (blobId : Id) : Prop :=
  ∃ b ∈ l.blobs, b.id = blobId ∧ ∃ r ∈ l.records, r.id = b.recordId ∧ r.state.terminal = true

/-- The ways of one attempt. -/
inductive Evolves (w : Allowance) (l : Ledger) (x : Work) : Work → Prop
  | move (n : Nat) (y : Work) (hm : Move w l x n y) : Evolves w l x y
  | clean (ht : x.token.isSome = true) (h0 : x.mutationTokens = [])
    (hw : w.advance x.id x.state .cleaned) :
    Evolves w l x (x.ended .cleaned)
  | rearm (y : Work) (hs : x.state.barred)
    (hy : y = x ∨ ∃ t ∈ x.mutationTokens, w.drop x.id t ∧ y = x.dropped t) : Evolves w l x y.rearmed
  | repair (recover : Bool) (hw : w.repair x.id) (hs : recover = true → x.state = .completing)
    (hv : x.state = .verified → l.Stopped x.blobId) : Evolves w l x (x.repaired recover)

namespace Evolves

variable {w : Allowance} {l : Ledger} {x y : Work}

theorem refl (x : Work) : Evolves w l x x := .move 0 x Move.keep

theorem same (h : Evolves w l x y) :
    y.id = x.id ∧ y.blobId = x.blobId ∧ y.objectKey = x.objectKey := by
  cases h with
  | move n _ hm => exact hm.same
  | clean _ _ _ | repair recover _ _ _ => exact ⟨rfl, rfl, rfl⟩
  | rearm z _ hz => rcases hz with rfl | ⟨t, _, _, rfl⟩ <;> exact ⟨rfl, rfl, rfl⟩

end Evolves

/-- How the attempts after a change come about: by the ways of the old ones, or an upload is
opened, for an attachment that has none or in the place of one that never started. -/
inductive Ledger.Continues (w : Allowance) (l : Ledger) : List TransferAttempt → Prop
  | evolve (as : List TransferAttempt) (h : ∀ x ∈ as, ∃ a ∈ l.attempts, Evolves w l a.work x.work) :
    Continues w l as
  | start (b : Blob) (new : TransferAttempt) (hnew : Initiated l b new.work)
    (hidle : ∀ x ∈ l.attemptsOf b.id, x.operation = .upload → x.state.active = false) :
    Continues w l (l.attempts ++ [new])
  | restart (b : Blob) (a a' new : TransferAttempt) (ha : a ∈ l.attempts) (hab : a.blobId = b.id)
    (hs : a.state = .initiating) (ha' : a'.work = a.work.superseded)
    (hnew : Initiated l b new.work) :
    Continues w l (Table.put TransferAttempt.id a' l.attempts ++ [new])

variable {l l' : Ledger} {w : Allowance}

/-- Rows after a write of one attempt. -/
theorem Ledger.evolves_put {a a' : TransferAttempt} (ha : a ∈ l.attempts)
    (he : Evolves w l a.work a'.work) :
    ∀ x ∈ Table.put TransferAttempt.id a' l.attempts, ∃ a ∈ l.attempts,
      Evolves w l a.work x.work := by
  intro x hx
  rcases Table.of_mem_put hx with ⟨hx, -⟩ | rfl
  · exact ⟨x, hx, Evolves.refl _⟩
  · exact ⟨a, ha, he⟩

theorem Change.continues (hc : Change w l l') : l.Continues w l'.attempts := by
  have hkeep : l.Continues w l.attempts := .evolve _ fun x hx => ⟨x, hx, Evolves.refl _⟩
  have hfilter : ∀ p, l.Continues w (l.attempts.filter p) :=
    fun p => .evolve _ fun x hx => ⟨x, (List.mem_filter.mp hx).1, Evolves.refl _⟩
  cases hc with
  | mint n | respace s _ | insert r bs _ | share kind flag | record r r' _ _ | blob b b' _ _ =>
    exact hkeep
  | remove r _ _ _ _ => exact hfilter _
  | start b a _ _ ha hidle => exact .start b a ha hidle
  | restart b a a' new _ _ ha hab hs _ ha' hnew => exact .restart b a a' new ha hab hs ha' hnew
  | attempt a a' n ha hm => exact .evolve _ (Ledger.evolves_put ha (.move n _ hm))
  | touch f hf =>
    refine .evolve _ fun x hx => ?_
    obtain ⟨a, ha, rfl⟩ := List.mem_map.mp hx
    rcases hf a with he | he
    · exact ⟨a, ha, he ▸ Evolves.refl _⟩
    · exact ⟨a, ha, he ▸ .move 0 _ Move.unlease⟩
  | clean b a a' _ ha _ ht h0 hw ha' =>
    have he : Evolves w l a.work a'.work := ha' ▸ .clean ht h0 hw
    unfold ReleaseRule.cleanAttempt
    split_ifs <;> exact .evolve _ (Ledger.evolves_put ha he)
  | rearm r b a a' now _ _ _ ha _ hs ha' _ =>
    have he : Evolves w l a.work (a'.rearmed now).work := .rearm a'.work hs ha'
    unfold Ledger.rearm
    split_ifs <;> exact .evolve _ (Ledger.evolves_put ha he)
  | repair r b a recover now hr hrb hb ha hab hw hrecover hs _ =>
    have hv : a.state = .verified → l.Stopped a.blobId := by
      intro hv
      have hterm : r.state.terminal = true := by simpa [hv] using hs
      exact ⟨b, hb, hab.symm, r, hr, hrb, hterm⟩
    have he : Evolves w l a.work (Attempts.repaired a b recover now).work :=
      .repair recover hw (fun h => (hrecover.mp h).2) hv
    unfold Attempts.repairBlob
    split_ifs <;> exact .evolve _ (Ledger.evolves_put ha he)
  | forget keep _ => exact hfilter keep

/-- What the row of an attempt after a change comes from. -/
def Ledger.Descends (w : Allowance) (l : Ledger) (x : Work) : Prop :=
  (∃ b, Initiated l b x) ∨ ∃ a ∈ l.attempts, Evolves w l a.work x

/-- **Every attempt after a change is new or went one of the ways.** -/
theorem Change.descends (hc : Change w l l') : ∀ x ∈ l'.attempts, l.Descends w x.work := by
  intro x hx
  have hcontinues := hc.continues
  generalize l'.attempts = as at hx hcontinues
  cases hcontinues with
  | evolve _ h => exact Or.inr (h x hx)
  | start b new hnew _ =>
    rcases Table.mem_concat.mp hx with hx | rfl
    · exact Or.inr ⟨x, hx, Evolves.refl _⟩
    · exact Or.inl ⟨b, hnew⟩
  | restart b a a' new ha _ hs ha' hnew =>
    rcases Table.mem_concat.mp hx with hx | rfl
    · exact Or.inr (Ledger.evolves_put ha (ha' ▸ .move 0 _ (Move.supersede hs)) x hx)
    · exact Or.inl ⟨b, hnew⟩

/-- Stopping a record bars its attempts that are not settled. -/
theorem ReleaseRule.releasedAttempt_work (rule : ReleaseRule) (l : Ledger) (r : Record) (now : Time)
    (a : TransferAttempt) : (rule.releasedAttempt l r now a).work = a.work ∨
      (rule.releasedAttempt l r now a).work = a.work.released ∧ rule.settled a = false := by
  unfold ReleaseRule.releasedAttempt
  split
  · split_ifs
    · unfold ReleaseRule.releaseAttempt
      split_ifs with hs
      · exact Or.inl rfl
      · exact Or.inr ⟨rfl, by simpa using hs⟩
    · exact Or.inl rfl
  · exact Or.inl rfl

theorem ReleaseRule.release_work {rule : ReleaseRule} (hk : Table.Keyed Blob.id l.blobs)
    (r : Record) (state : RecordState) (now : Time) :
    ∀ x ∈ (rule.release l r state now).attempts, ∃ a ∈ l.attempts, x.work = a.work ∨
      x.work = a.work.released := by
  intro x hx
  rw [ReleaseRule.release_attempts state now hk] at hx
  obtain ⟨a, ha, rfl⟩ := List.mem_map.mp hx
  rcases rule.releasedAttempt_work l r now a with he | ⟨he, -⟩
  · exact ⟨a, ha, Or.inl he⟩
  · exact ⟨a, ha, Or.inr he⟩

/-- Identifiers are only ever drawn. -/
theorem Change.minted_le (hc : Change w l l') : l.minted ≤ l'.minted := by
  cases hc with
  | mint n | attempt a a' n _ _ => exact Nat.le_add_right _ n
  | insert r bs _ => exact Nat.le_add_right _ _
  | start b a _ _ _ _ | restart b a a' new _ _ _ _ _ _ _ _ => exact Nat.le_add_right _ 2
  | clean b a a' _ _ _ _ _ _ _ =>
    unfold ReleaseRule.cleanAttempt
    split_ifs <;> exact le_refl _
  | rearm r b a a' now _ _ _ _ _ _ _ _ =>
    unfold Ledger.rearm
    split_ifs <;> exact le_refl _
  | repair r b a recover now _ _ _ _ _ _ _ _ _ =>
    unfold Attempts.repairBlob
    split_ifs <;> exact le_refl _
  | _ => exact le_refl _

theorem Effect.minted_le (hs : l.Sound) (he : Effect w l l') : l.minted ≤ l'.minted := by
  refine (he.preserves (P := fun m => m.Sound ∧ l.minted ≤ m.minted) ?_ ?_ ⟨hs, le_refl _⟩).2
  · exact fun m m' h hc => ⟨hc.sound h.1, h.2.trans hc.minted_le⟩
  · intro m r state now h _ _ _
    rw [ReleaseRule.release_minted]
    exact ⟨h.1.release w.rule r state now, h.2⟩

/-- **A property of single rows is an invariant if new rows have it and every way and the stop
of its record keep it.** -/
theorem Effect.every_work {P : Work → Prop} (hs : l.Sound)
    (hnew : ∀ m b x, l.minted ≤ m.minted → Initiated m b x → P x)
    (hev : ∀ m x y, P x → Evolves w m x y → P y) (hrel : ∀ x, P x → P x.released)
    (he : Effect w l l') (h : ∀ a ∈ l.attempts, P a.work) : ∀ a ∈ l'.attempts, P a.work := by
  have hall := he.preserves
    (P := fun m => m.Sound ∧ l.minted ≤ m.minted ∧ ∀ a ∈ m.attempts, P a.work) ?_ ?_
      ⟨hs, le_refl _, h⟩
  · exact hall.2.2
  · rintro m m' ⟨hsound, hle, hm⟩ hc
    refine ⟨hc.sound hsound, hle.trans hc.minted_le, fun x hx => ?_⟩
    rcases hc.descends x hx with ⟨b, hi⟩ | ⟨a, ha, hax⟩
    · exact hnew m b _ hle hi
    · exact hev m _ _ (hm a ha) hax
  · rintro m r state now ⟨hsound, hle, hm⟩ _ _ _
    refine ⟨hsound.release w.rule r state now, ?_, fun x hx => ?_⟩
    · rwa [ReleaseRule.release_minted]
    · obtain ⟨a, ha, hx | hx⟩ := ReleaseRule.release_work hsound.blobs r state now x hx
      · exact hx ▸ hm a ha
      · exact hx ▸ hrel _ (hm a ha)

/-! ### Cleaned attempts rest -/

/-- A cleaned attempt has no lease and no marker. -/
def Ledger.Rested (l : Ledger) : Prop :=
  ∀ a ∈ l.attempts, a.state = .cleaned → a.token = none ∧ a.mutationTokens = []

/-- An attempt that rests was at rest, and its markers are what they were. -/
theorem Move.settled_eq {x y : Work} {n : Nat} (hm : Move w l x n y) (hy : y.state = .cleaned) :
    x.state = .cleaned ∧ y.mutationTokens = x.mutationTokens ∧
      (y.token = x.token ∨ y.token = none) := by
  cases hm with
  | keep | expose t => exact ⟨hy, rfl, Or.inl rfl⟩
  | unlease => exact ⟨hy, rfl, Or.inr rfl⟩
  | mark part hs => simp [hs] at hy
  | submit hs => simp at hy
  | lease hs => simp [show x.state = .cleaned from hy] at hs
  | supersede hs => simp [Work.superseded] at hy
  | advance t s z _ hs _ _ =>
    rw [show s = .cleaned from hy] at hs
    simp at hs
  | settle t _ hs _ => exact absurd (Or.inr hy) hs

theorem Evolves.rested {x y : Work} (hev : Evolves w l x y)
    (hx : x.state = .cleaned → x.token = none ∧ x.mutationTokens = []) (hy : y.state = .cleaned) :
    y.token = none ∧ y.mutationTokens = [] := by
  cases hev with
  | move n _ hm =>
    obtain ⟨hstate, htokens, htoken⟩ := hm.settled_eq hy
    exact ⟨htoken.elim (fun h => h.trans (hx hstate).1) id, htokens.trans (hx hstate).2⟩
  | clean _ h0 _ => exact ⟨rfl, h0⟩
  | rearm z _ _ => simp [Work.rearmed] at hy
  | repair recover _ _ _ => cases recover <;> simp [Work.repaired] at hy

theorem Ledger.Rested.descends (h : l.Rested) {x : Work} (hx : l.Descends w x)
    (hs : x.state = .cleaned) : x.token = none ∧ x.mutationTokens = [] := by
  rcases hx with ⟨b, hi⟩ | ⟨a, ha, hev⟩
  · rw [hi.state] at hs
    simp at hs
  · exact hev.rested (h a ha) hs

theorem Change.rested (h : l.Rested) (hc : Change w l l') : l'.Rested :=
  fun a ha hs => h.descends (hc.descends a ha) hs

theorem Ledger.Rested.release (h : l.Rested) (hk : Table.Keyed Blob.id l.blobs) {rule : ReleaseRule}
    (r : Record) (state : RecordState) (now : Time) : (rule.release l r state now).Rested := by
  intro a ha hs
  obtain ⟨x, hx, he | he⟩ := ReleaseRule.release_work hk r state now a ha
  · have hrow := h x hx ((congrArg Work.state he).symm.trans hs)
    exact ⟨(congrArg Work.token he).trans hrow.1, (congrArg Work.mutationTokens he).trans hrow.2⟩
  · rw [show a.state = .cleanup from congrArg Work.state he] at hs
    simp at hs

end Hf2l.Exchange
