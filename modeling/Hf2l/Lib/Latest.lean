import Hf2l.Lib.Table
import Mathlib.Order.Defs.LinearOrder

/-!
# `Hf2l.Lib.Latest`: the newest record of each key

A loop over a list keeps one record per key and replaces it by one of a greater rank. `Latest` is
what it has kept, with one rule per branch of such a loop. If no two records have one rank, then the
records that are kept are those that are newest (`Latest.mem_iff`), whatever the order of the list.
-/

set_option autoImplicit false

namespace Hf2l.Lib

variable {ρ κ τ : Type} {key : ρ → κ} [LinearOrder τ] {rank : ρ → τ} {l t : List ρ} {r : ρ}

/-- No record of the list with the same key has a greater rank. -/
def Newest (key : ρ → κ) (rank : ρ → τ) (l : List ρ) (r : ρ) : Prop :=
  r ∈ l ∧ ∀ x ∈ l, key x = key r → rank x ≤ rank r

/-- The table has a newest record for each key of the list. -/
structure Latest (key : ρ → κ) (rank : ρ → τ) (l t : List ρ) : Prop where
  keyed : Table.Keyed key t
  newest : ∀ r ∈ t, Newest key rank l r
  covered : ∀ x ∈ l, ∃ r ∈ t, key r = key x

namespace Latest

theorem nil : Latest key rank [] [] :=
  ⟨List.nodup_nil, fun _ h => absurd h List.not_mem_nil, fun _ h => absurd h List.not_mem_nil⟩

section
variable (h : Latest key rank l t)
include h

/-- The first record of its key. -/
theorem insert (hnew : ∀ x ∈ t, key x ≠ key r) : Latest key rank (l ++ [r]) (t ++ [r]) := by
  refine ⟨h.keyed.concat hnew, fun y hy => ?_, fun x hx => ?_⟩
  · rcases List.mem_append.mp hy with hy | hy
    · obtain ⟨hmem, hmax⟩ := h.newest y hy
      refine ⟨List.mem_append_left _ hmem, fun x hx he => ?_⟩
      rcases List.mem_append.mp hx with hx | hx
      · exact hmax x hx he
      · exact absurd (he.symm.trans (congrArg key (List.mem_singleton.mp hx))) (hnew y hy)
    · obtain rfl := List.mem_singleton.mp hy
      refine ⟨List.mem_append_right _ hy, fun x hx he => ?_⟩
      rcases List.mem_append.mp hx with hx | hx
      · obtain ⟨z, hz, hkey⟩ := h.covered x hx
        exact absurd (hkey.trans he) (hnew z hz)
      · rw [List.mem_singleton.mp hx]
  · rcases List.mem_append.mp hx with hx | hx
    · obtain ⟨z, hz, hkey⟩ := h.covered x hx
      exact ⟨z, List.mem_append_left _ hz, hkey⟩
    · exact ⟨x, List.mem_append_right _ hx, rfl⟩

/-- A record that is not newer than the one of its key. -/
theorem keep {y : ρ} (hy : y ∈ t) (hkey : key y = key r) (hle : rank r ≤ rank y) :
    Latest key rank (l ++ [r]) t := by
  refine ⟨h.keyed, fun z hz => ?_, fun x hx => ?_⟩
  · obtain ⟨hmem, hmax⟩ := h.newest z hz
    refine ⟨List.mem_append_left _ hmem, fun x hx he => ?_⟩
    rcases Table.mem_concat.mp hx with hx | rfl
    · exact hmax x hx he
    · rwa [h.keyed.eq_of_key_eq hz hy (he.symm.trans hkey.symm)]
  · rcases List.mem_append.mp hx with hx | hx
    · exact h.covered x hx
    · exact ⟨y, hy, List.mem_singleton.mp hx ▸ hkey⟩

/-- A record that is newer than the one of its key. -/
theorem replace [DecidableEq κ] {y : ρ} (hy : y ∈ t) (hkey : key y = key r)
    (hlt : rank y < rank r) : Latest key rank (l ++ [r]) (Table.put key r t) := by
  refine ⟨h.keyed.put r, fun z hz => ?_, fun x hx => ?_⟩
  · rcases Table.mem_put.mp hz with ⟨hz, hne⟩ | ⟨rfl, -⟩
    · obtain ⟨hmem, hmax⟩ := h.newest z hz
      refine ⟨List.mem_append_left _ hmem, fun x hx he => ?_⟩
      rcases List.mem_append.mp hx with hx | hx
      · exact hmax x hx he
      · exact absurd (List.mem_singleton.mp hx ▸ he.symm) hne
    · refine ⟨List.mem_append_right _ List.mem_cons_self, fun x hx he => ?_⟩
      rcases List.mem_append.mp hx with hx | hx
      · exact ((h.newest y hy).2 x hx (he.trans hkey.symm)).trans hlt.le
      · rw [List.mem_singleton.mp hx]
  · have hself : r ∈ Table.put key r t := Table.mem_put.mpr (.inr ⟨rfl, y, hy, hkey⟩)
    rcases List.mem_append.mp hx with hx | hx
    · obtain ⟨z, hz, hzx⟩ := h.covered x hx
      by_cases he : key z = key r
      · exact ⟨r, hself, he.symm.trans hzx⟩
      · exact ⟨z, Table.mem_put.mpr (.inl ⟨hz, he⟩), hzx⟩
    · exact ⟨r, hself, by rw [List.mem_singleton.mp hx]⟩

/-- **What is kept is what is newest.** -/
theorem mem_iff (hrank : ∀ x ∈ l, ∀ y ∈ l, rank x = rank y → x = y) :
    r ∈ t ↔ Newest key rank l r := by
  refine ⟨h.newest r, fun hr => ?_⟩
  obtain ⟨y, hy, hkey⟩ := h.covered r hr.1
  obtain ⟨hmem, hmax⟩ := h.newest y hy
  have heq := hrank y hmem r hr.1 (le_antisymm (hr.2 y hmem hkey) (hmax r hr.1 hkey.symm))
  exact heq ▸ hy

end

end Latest

end Hf2l.Lib
