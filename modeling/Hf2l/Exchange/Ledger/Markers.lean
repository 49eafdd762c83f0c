import Hf2l.Exchange.Ledger.Stranding

/-!
# `Hf2l.Exchange.Ledger.Markers`: markers, the barrier and the grant horizon

What protects the object of an attempt from a deletion while it is written. A marker stays in
the ledger of its attempt until its own participant takes it out or an operator repairs the
attempt (`Effect.held`), and its row is not deleted before that. An attempt behind the cleanup
barrier without markers stays there and gets none (`Effect.barrier`), the grant horizon of an
attempt never goes back (`Effect.horizon`), and only a commit makes an attempt clean
(`Effect.cleaned_by`).
-/

set_option autoImplicit false

namespace Hf2l.Exchange

open Lib

namespace Ledger

/-- The marker is in the ledger of the attempt. -/
def Held (l : Ledger) (id : Id) (t : Token) : Prop :=
  ∃ a ∈ l.attempts, a.id = id ∧ t ∈ a.mutationTokens

/-- The attempt, if it still exists, is behind the cleanup barrier and has no marker. -/
def Barrier (l : Ledger) (id : Id) : Prop :=
  ∀ a ∈ l.attempts, a.id = id → a.state.barred ∧ a.mutationTokens = []

/-- No grant of the attempt, if it still exists, is recorded to end before `t`. -/
def Horizon (l : Ledger) (id : Id) (t : Time) : Prop :=
  ∀ a ∈ l.attempts, a.id = id → t ≤ a.grantExpiresAt

theorem Held.not_barrier {l : Ledger} {id : Id} {t : Token} (h : l.Held id t) : ¬ l.Barrier id := by
  obtain ⟨a, ha, hid, ht⟩ := h
  intro hb
  rw [(hb a ha hid).2] at ht
  simp at ht

end Ledger

/-! ### Markers -/

section Markers

variable {w : Allowance} {l l' : Ledger}

/-- A write of one row keeps the rows' identifiers. -/
theorem Ledger.mem_ids_put {a a' : TransferAttempt} (ha : a ∈ l.attempts) :
    a.id ∈ (Table.put TransferAttempt.id a' l.attempts).map TransferAttempt.id := by
  rw [Table.map_key_put]
  exact List.mem_map_of_mem ha

/-- The row of an attempt with a marker is not deleted, and neither is one that is not clean
while its record is not stopped. -/
theorem Change.keeps_row (hc : Change w l l') {a : TransferAttempt} (ha : a ∈ l.attempts)
    (hf : ¬ w.forget a.id)
    (hkept : a.mutationTokens ≠ [] ∨ a.state ≠ .cleaned ∧ ¬ l.Stopped a.blobId) :
    a.id ∈ l'.attempts.map TransferAttempt.id := by
  have hkeep : a.id ∈ l.attempts.map TransferAttempt.id := List.mem_map_of_mem ha
  cases hc with
  | mint n | respace s _ | insert r bs _ | share kind flag | record r r' _ _ | blob b b' _ _ =>
    exact hkeep
  | remove r hr hterm hblobs _ =>
    -- A purged record is stopped, and its attempts have no markers.
    refine List.mem_map_of_mem (List.mem_filter.mpr ⟨ha, decide_eq_true fun hmem => ?_⟩)
    obtain ⟨b, hb, hba⟩ := List.mem_map.mp hmem
    have hmine : a ∈ l.attemptsOf b.id := List.mem_filter.mpr ⟨ha, decide_eq_true hba.symm⟩
    obtain ⟨hbl, hbr⟩ := List.mem_filter.mp hb
    rcases hkept with ht | ⟨-, hlive⟩
    · exact ht ((hblobs b hb).2 a hmine)
    · exact hlive ⟨b, hbl, hba, r, hr, (of_decide_eq_true hbr).symm, hterm⟩
  | start b x _ _ _ _ => exact List.mem_map_of_mem (List.mem_append_left _ ha)
  | restart b x x' new _ _ _ _ _ _ _ _ =>
    show a.id ∈ (Table.put TransferAttempt.id x' l.attempts ++ [new]).map TransferAttempt.id
    rw [List.map_append]
    exact List.mem_append_left _ (Ledger.mem_ids_put ha)
  | attempt x x' n _ _ => exact Ledger.mem_ids_put ha
  | touch f hf =>
    refine List.mem_map.mpr ⟨f a, List.mem_map_of_mem ha, ?_⟩
    rcases hf a with he | he <;> exact congrArg Work.id he
  | clean b x x' _ _ _ _ _ _ _ =>
    unfold ReleaseRule.cleanAttempt
    split_ifs <;> exact Ledger.mem_ids_put ha
  | rearm r b x x' now _ _ _ _ _ _ _ _ =>
    unfold Ledger.rearm
    split_ifs <;> exact Ledger.mem_ids_put ha
  | repair r b x recover now _ _ _ _ _ _ _ _ _ =>
    unfold Attempts.repairBlob
    split_ifs <;> exact Ledger.mem_ids_put ha
  | forget keep h =>
    refine List.mem_map_of_mem (List.mem_filter.mpr ⟨ha, ?_⟩)
    by_contra hk
    obtain ⟨hclean, h0⟩ := (h a ha (by simpa using hk)).resolve_left hf
    rcases hkept with ht | ⟨hne, -⟩
    · exact ht h0
    · exact hne hclean

variable {t : Token}

theorem Move.keeps_marker {x y : Work} {n : Nat} (hm : Move w l x n y) (ht : t ∈ x.mutationTokens)
    (hd : ¬ w.drop x.id t) : t ∈ y.mutationTokens := by
  have hdrop : ∀ u, w.drop x.id u → t ∈ (x.dropped u).mutationTokens := by
    intro u hu
    refine List.mem_filter.mpr ⟨ht, decide_eq_true ?_⟩
    rintro rfl
    exact hd hu
  cases hm with
  | keep | unlease | expose u | supersede _ => exact ht
  | mark part _ | submit _ => exact List.mem_append_left _ ht
  | lease _ =>
    show t ∈ if x.state = .completing then
      x.mutationTokens ++ [.lease (l.fresh 0)] else x.mutationTokens
    split_ifs
    · exact List.mem_append_left _ ht
    · exact ht
  | advance u s z _ _ _ hz =>
    rcases hz with rfl | ⟨rfl, hu⟩
    · exact ht
    · exact hdrop u hu
  | settle u _ _ hu => exact hdrop u hu

theorem Evolves.keeps_marker {x y : Work} (hev : Evolves w l x y) (ht : t ∈ x.mutationTokens)
    (hd : ¬ w.drop x.id t) (hr : ¬ w.repair x.id) : t ∈ y.mutationTokens := by
  cases hev with
  | move n _ hm => exact hm.keeps_marker ht hd
  | clean _ _ _ => exact ht
  | rearm z _ hz =>
    rcases hz with rfl | ⟨u, _, hu, rfl⟩
    · exact ht
    · refine List.mem_filter.mpr ⟨ht, decide_eq_true ?_⟩
      rintro rfl
      exact hd hu
  | repair recover hw _ _ => exact absurd hw hr

theorem Ledger.Held.descends {m : Ledger} (hs : m.Sound) {id : Id} (h : m.Held id t)
    (hd : ¬ w.drop id t) (hr : ¬ w.repair id) {x : TransferAttempt} (hx : m.Descends w x.work)
    (hid : x.id = id) :
    t ∈ x.mutationTokens := by
  obtain ⟨a, ha, rfl, ht⟩ := h
  rcases hx with ⟨b, hi⟩ | ⟨y, hy, hev⟩
  · -- A new attempt has a new identifier.
    exact absurd (hid.symm.trans hi.id) ((hs.mintedAttempts a ha).ne_fresh 0)
  · have hsame : x.id = y.id := hev.same.1
    obtain rfl : y = a := hs.attempts.eq_of_key_eq hy ha (hsame.symm.trans hid)
    exact hev.keeps_marker ht hd hr

/-- **A marker stays in the ledger until it is dropped, or its attempt repaired or forgotten.** -/
theorem Effect.held (hs : l.Sound) (he : Effect w l l') {id : Id} (hd : ¬ w.drop id t)
    (hr : ¬ w.repair id) (hf : ¬ w.forget id) (h : l.Held id t) : l'.Held id t := by
  refine (he.preserves (P := fun m => m.Sound ∧ m.Held id t) ?_ ?_ ⟨hs, h⟩).2
  · rintro m m' ⟨hm, hheld⟩ hc
    refine ⟨hc.sound hm, ?_⟩
    obtain ⟨a, ha, haid, ht⟩ := hheld
    obtain ⟨x, hx, hxid⟩ :=
      List.mem_map.mp (hc.keeps_row ha (haid ▸ hf) (Or.inl (List.ne_nil_of_mem ht)))
    have hheld : m.Held id t := ⟨a, ha, haid, ht⟩
    exact ⟨x, hx, hxid.trans haid, hheld.descends hm hd hr (hc.descends x hx) (hxid.trans haid)⟩
  · rintro m r state now ⟨hm, a, ha, haid, ht⟩ _ _ _
    -- Stopping a record keeps the identifiers and the markers of its attempts.
    have hsame : (w.rule.releasedAttempt m r now a).id = a.id ∧
        (w.rule.releasedAttempt m r now a).mutationTokens = a.mutationTokens := by
      rcases w.rule.releasedAttempt_work m r now a with hw | ⟨hw, -⟩ <;>
        exact ⟨congrArg Work.id hw, congrArg Work.mutationTokens hw⟩
    refine ⟨hm.release w.rule r state now, w.rule.releasedAttempt m r now a, ?_,
      hsame.1.trans haid, ?_⟩
    · rw [ReleaseRule.release_attempts state now hm.blobs]
      exact List.mem_map_of_mem ha
    · rwa [hsame.2]

end Markers

/-! ### The barrier, the horizon and the keys -/

section Barrier

variable {w : Allowance} {l l' : Ledger}

theorem Evolves.barrier {x y : Work} (hev : Evolves w l x y)
    (hw : ∀ s s', w.advance x.id s s' → s.barred → s' = .cleaned)
    (h : x.state.barred ∧ x.mutationTokens = []) : y.state.barred ∧ y.mutationTokens = [] := by
  obtain ⟨hbar, h0⟩ := h
  have hactive : ∀ s, x.state = s → s.barred := fun s hs => hs ▸ hbar
  cases hev with
  | move n _ hm =>
    cases hm with
    | keep | unlease | expose t => exact ⟨hbar, h0⟩
    | mark part hs | submit hs | supersede hs => simpa [TransferState.barred] using hactive _ hs
    | lease hs =>
      have hne : x.state ≠ .completing := by
        rintro hs
        simpa [TransferState.barred] using hactive _ hs
      refine ⟨hbar, ?_⟩
      show (if x.state = .completing then _ else x.mutationTokens) = []
      rw [if_neg hne, h0]
    | advance t s z _ hs hadv _ =>
      -- From behind the barrier a commit leads to `cleaned` only.
      rw [hw _ _ hadv hbar] at hs
      simp at hs
    | settle t ht _ _ =>
      rw [h0] at ht
      simp at ht
  | clean _ _ _ => exact ⟨Or.inr rfl, h0⟩
  | rearm z _ hz =>
    refine ⟨Or.inl rfl, ?_⟩
    rcases hz with rfl | ⟨t, ht, _, rfl⟩
    · exact h0
    · rw [h0] at ht
      simp at ht
  | repair recover _ hs _ =>
    cases recover with
    | false => exact ⟨Or.inl rfl, rfl⟩
    | true => simpa [TransferState.barred] using hactive _ (hs rfl)

/-- **An attempt behind the barrier without markers stays there without markers.** -/
theorem Effect.barrier (hs : l.Sound) (he : Effect w l l') {id : Id} (hm : l.Minted id)
    (hw : ∀ s s', w.advance id s s' → s.barred → s' = .cleaned) (h : l.Barrier id) :
    l'.Barrier id := by
  refine he.every_work (P := fun x => x.id = id → x.state.barred ∧ x.mutationTokens = []) hs
    ?_ ?_ ?_ h
  · intro m b x hle hi hx
    exact absurd (hx.symm.trans hi.id) ((hm.mono hle).ne_fresh 0)
  · intro m x y hx hev hy
    have hid : x.id = id := hev.same.1.symm.trans hy
    exact hev.barrier (fun s s' hadv => hw s s' (hid ▸ hadv)) (hx hid)
  · exact fun x hx hid => ⟨Or.inl rfl, (hx hid).2⟩

theorem Evolves.grant_le {x y : Work} (hev : Evolves w l x y) :
    x.grantExpiresAt ≤ y.grantExpiresAt := by
  cases hev with
  | move n _ hm =>
    cases hm with
    | expose t => exact le_max_left _ _
    | advance t s z _ _ _ hz => rcases hz with rfl | ⟨rfl, -⟩ <;> exact le_refl _
    | _ => exact le_refl _
  | rearm z _ hz => rcases hz with rfl | ⟨t, _, _, rfl⟩ <;> exact le_refl _
  | _ => exact le_refl _

/-- **The grant horizon of an attempt never goes back.** -/
theorem Effect.horizon (hs : l.Sound) (he : Effect w l l') {id : Id} (hm : l.Minted id) {t : Time}
    (h : l.Horizon id t) : l'.Horizon id t := by
  refine he.every_work (P := fun x => x.id = id → t ≤ x.grantExpiresAt) hs ?_ ?_ (fun _ hx => hx) h
  · intro m b x hle hi hx
    exact absurd (hx.symm.trans hi.id) ((hm.mono hle).ne_fresh 0)
  · intro m x y hx hev hy
    exact le_trans (hx (hev.same.1.symm.trans hy)) hev.grant_le

/-- The key of an attempt names its attachment and the attempt itself. -/
def Ledger.KeysMatch (l : Ledger) : Prop :=
  ∀ a ∈ l.attempts, a.objectKey.blobId = a.blobId ∧ a.objectKey.attemptId = a.id

theorem Effect.keysMatch (hs : l.Sound) (he : Effect w l l') (h : l.KeysMatch) : l'.KeysMatch := by
  refine he.every_work (P := fun x => x.objectKey.blobId = x.blobId ∧ x.objectKey.attemptId = x.id)
    hs ?_ ?_
    (fun _ hx => hx) h
  · intro m b x _ hi
    exact ⟨hi.key.1.trans hi.blobId.symm, hi.key.2.trans hi.id.symm⟩
  · intro m x y hx hev
    obtain ⟨hid, hblob, hkey⟩ := hev.same
    rw [hid, hblob, hkey]
    exact hx

/-- An attempt becomes clean by a commit. -/
theorem Effect.cleaned_by (hs : l.Sound) (he : Effect w l l') {a' : TransferAttempt}
    (ha' : a' ∈ l'.attempts) (hc : a'.state = .cleaned) :
    (∃ a ∈ l.attempts, a.id = a'.id ∧ a.state = .cleaned) ∨ ∃ s, w.advance a'.id s .cleaned := by
  refine he.every_work (P := fun x => x.state = .cleaned →
    (∃ a ∈ l.attempts, a.id = x.id ∧ a.state = .cleaned) ∨
      ∃ s, w.advance x.id s .cleaned) hs ?_ ?_ ?_ ?_ a' ha' hc
  · intro m b x _ hi hx
    rw [hi.state] at hx
    simp at hx
  · intro m x y hx hev hy
    rw [hev.same.1]
    cases hev with
    | move n _ hm => exact hx (hm.settled_eq hy).1
    | clean _ _ hw => exact Or.inr ⟨x.state, hw⟩
    | rearm z _ _ => simp [Work.rearmed] at hy
    | repair recover _ _ _ => cases recover <;> simp [Work.repaired] at hy
  · intro x _ hx
    simp [Work.released] at hx
  · exact fun a ha hac => Or.inl ⟨a, ha, rfl, hac⟩

end Barrier

end Hf2l.Exchange
