import Hf2l.Jobs.Scheduler.Accounting
import Hf2l.Lib.Matching

/-!
# `Hf2l.Jobs.Scheduler.Gpus`: which devices a gang takes

`assignGPUs` of the Go scheduler and `_assign_gpus` of the Python reference: one slot for
each GPU that a request asks of a pool, seated by `Matching.seatAll` among the pool's free
devices. Two pools may list one device, so a slot can have to move.

`assignGPUs_spec` says what an assignment is: each pool gets as many devices as it was asked
for, every one free and its own, and no device goes to two pools. `gpu_matching_exact` adds
that the search ends and that it fails only if there is no such assignment.
-/

set_option autoImplicit false

namespace Hf2l.Jobs.Scheduler

open Lib

structure GpuSlot where
  pool : String
  index : Nat
  candidates : List String
deriving DecidableEq

/-- The order in which slots are seated. -/
def GpuSlot.before (a b : GpuSlot) : Bool :=
  if a.candidates.length ≠ b.candidates.length then a.candidates.length < b.candidates.length
  else if a.pool ≠ b.pool then a.pool < b.pool
  else a.index ≤ b.index

/-- The devices of a pool that no live allocation holds, each once, in order. -/
def freeGpus (pools : List Pool) (occupied : List String) (poolId : String) : List String :=
  match Table.get (·.id) poolId pools with
  | none => []
  | some p => ((p.gpuUuids.filter (· ∉ occupied)).dedup).insertionSort (· ≤ ·)

/-- One slot for each GPU that the request asks of a pool. -/
def gpuSlots (pools : List Pool) (occupied : List String) (r : Request) : List GpuSlot :=
  ((r.pools.insertionSort (· ≤ ·)).flatMap fun poolId =>
    (List.range (r.amount poolId .gpuCount).toNat).map fun i =>
      ⟨poolId, i, freeGpus pools occupied poolId⟩).insertionSort fun a b => a.before b

section
variable (slots : List GpuSlot)

/-- The devices that the `i`-th slot can take. -/
def candidates (i : Nat) : List String :=
  match slots[i]? with
  | none => []
  | some slot => slot.candidates

/-- The pool of the `i`-th slot. -/
def slotPool (i : Nat) : Option String := slots[i]?.map (·.pool)

/-- More moves than there are devices to look at. -/
def gpuFuel : Nat := (slots.flatMap (·.candidates)).length + 1

/-- The devices that the owners give to one pool. -/
def poolShare (owners : Matching.Owners String) (poolId : String) : List String :=
  ((owners.filter fun e => slotPool slots e.2 = some poolId).map Prod.fst).insertionSort (· ≤ ·)

end

/-- `assignGPUs`. -/
def assignGPUs (pools : List Pool) (occupied : List String) (r : Request) :
    Option (String → List String) :=
  let slots := gpuSlots pools occupied r
  (Matching.seatAll (candidates slots) (gpuFuel slots) (List.range slots.length) []).map
    (poolShare slots)

/-! ### What an assignment is -/

/-- What an assignment of devices is for: every pool of the request gets as many devices as
it is asked for, each of them listed by the pool and not in use, and no device is given
twice. -/
structure Placement (pools : List Pool) (occupied : List String) (r : Request)
    (assigned : String → List String) : Prop where
  count : ∀ poolId ∈ r.pools, (assigned poolId).length = (r.amount poolId .gpuCount).toNat
  free : ∀ poolId ∈ r.pools, ∀ u ∈ assigned poolId,
    ∃ p, Table.get (·.id) poolId pools = some p ∧ u ∈ p.gpuUuids ∧ u ∉ occupied
  once : ∀ poolId ∈ r.pools, (assigned poolId).Nodup
  apart : ∀ poolId ∈ r.pools, ∀ other ∈ r.pools, poolId ≠ other →
    ∀ u ∈ assigned poolId, u ∉ assigned other

variable {occupied : List String} {pools : List Pool} {r : Request}

/-- A free device is listed by its pool, and no live allocation holds it. -/
theorem mem_freeGpus {poolId u : String} : u ∈ freeGpus pools occupied poolId ↔
      ∃ p, Table.get (·.id) poolId pools = some p ∧ u ∈ p.gpuUuids ∧ u ∉ occupied := by
  unfold freeGpus
  cases Table.get (·.id) poolId pools with
  | none => simp
  | some p => simp [List.mem_insertionSort, List.mem_dedup, List.mem_filter]

theorem gpuSlots_candidates {slot : GpuSlot}
    (h : slot ∈ gpuSlots pools occupied r) :
    slot.candidates = freeGpus pools occupied slot.pool := by
  unfold gpuSlots at h
  rw [List.mem_insertionSort, List.mem_flatMap] at h
  obtain ⟨poolId, -, h⟩ := h
  obtain ⟨i, -, rfl⟩ := List.mem_map.mp h
  rfl

/-- A request has one slot for each GPU it asks of a pool. -/
theorem gpuSlots_count (hk : r.pools.Nodup) {poolId : String} (hp : poolId ∈ r.pools) :
    (gpuSlots pools occupied r).countP (fun s => s.pool = poolId) =
      (r.amount poolId .gpuCount).toNat := by
  unfold gpuSlots
  rw [(List.perm_insertionSort _ _).countP_eq, List.countP_flatMap]
  -- Only the entry of the pool itself has slots of the pool.
  have hentry : ∀ q, ((List.countP fun s : GpuSlot => decide (s.pool = poolId)) ∘ fun poolId =>
      (List.range (r.amount poolId .gpuCount).toNat).map fun i =>
        (⟨poolId, i, freeGpus pools occupied poolId⟩ : GpuSlot)) q =
      if q = poolId then (r.amount poolId .gpuCount).toNat else 0 := by
    intro q
    by_cases hq : q = poolId <;> simp [hq, List.countP_map, Function.comp_def]
  rw [List.map_congr_left fun q _ => hentry q]
  have hk' : (r.pools.insertionSort (· ≤ ·)).Nodup := (List.perm_insertionSort _ _).nodup_iff.mpr hk
  have hp' : poolId ∈ r.pools.insertionSort (· ≤ ·) := (List.mem_insertionSort _).mpr hp
  rw [List.sum_map_eq_nsmul_single poolId _ fun q hq _ => if_neg hq]
  simp [List.count_eq_one_of_mem hk' hp']

/-- Counting the numbers of a list's entries is counting its entries. -/
theorem countP_range_getElem? {α : Type} (l : List α) (p : α → Bool) :
    (List.range l.length).countP (fun i => l[i]?.any p) = l.countP p := by
  have h : (List.range l.length).map (fun i => l[i]?) = l.map some := by
    refine List.ext_getElem? fun i => ?_
    by_cases hi : i < l.length <;> simp [hi]
  have hc := congrArg (List.countP fun o : Option α => o.any p) h
  rw [List.countP_map, List.countP_map] at hc
  simpa [Function.comp_def] using hc

/-- An assignment that is found is a placement. -/
theorem assignGPUs_spec {assigned : String → List String} (hk : r.pools.Nodup)
    (h : assignGPUs pools occupied r = some assigned) : Placement pools occupied r assigned := by
  unfold assignGPUs at h
  obtain ⟨owners, ho, rfl⟩ := Option.map_eq_some_iff.mp h
  set slots := gpuSlots pools occupied r with hslots
  obtain ⟨hseated, hperm⟩ := Matching.seatAll_seated ⟨by simp, by simp⟩ ho
  rw [List.map_nil, List.append_nil] at hperm
  have hmem : ∀ poolId u, u ∈ poolShare slots owners poolId →
      ∃ i, (u, i) ∈ owners ∧ slotPool slots i = some poolId := by
    intro poolId u hu
    rw [poolShare, List.mem_insertionSort] at hu
    obtain ⟨e, he, rfl⟩ := List.mem_map.mp hu
    have he' := List.mem_filter.mp he
    exact ⟨e.2, he'.1, of_decide_eq_true he'.2⟩
  refine ⟨?_, ?_, ?_, ?_⟩
  · -- The holders are the slots, each once, so a pool's devices are as many as its slots.
    intro poolId hp
    rw [← gpuSlots_count hk hp, ← hslots, ← countP_range_getElem?, ← hperm.countP_eq,
      List.countP_map, poolShare, List.length_insertionSort, List.length_map,
      ← List.countP_eq_length_filter]
    refine List.countP_congr fun e _ => ?_
    cases hs : slots[e.2]? with
    | none | some slot => simp [slotPool, hs]
  · intro poolId _ u hu
    obtain ⟨i, hi, hslot⟩ := hmem poolId u hu
    have hfit := hseated.fits _ hi
    obtain ⟨slot, hget, hpool⟩ := Option.map_eq_some_iff.mp hslot
    simp only [candidates, hget] at hfit
    rw [gpuSlots_candidates (List.mem_of_getElem? hget), hpool] at hfit
    exact mem_freeGpus.mp hfit
  · intro poolId _
    rw [poolShare, (List.perm_insertionSort _ _).nodup_iff]
    exact (List.filter_sublist.map Prod.fst).nodup hseated.once
  · intro poolId _ other _ hne u hu hu'
    obtain ⟨i, hi, hs⟩ := hmem poolId u hu
    obtain ⟨j, hj, hs'⟩ := hmem other u hu'
    have he : (u, i) = (u, j) := List.inj_on_of_nodup_map hseated.once hi hj rfl
    rw [(Prod.mk.inj he).2, hs'] at hs
    exact hne (Option.some.inj hs).symm

/-! ### The assignment is exact -/

theorem candidates_items (slots : List GpuSlot) (i : Nat) :
    candidates slots i ⊆ slots.flatMap (·.candidates) := by
  intro u hu
  unfold candidates at hu
  split at hu
  · simp at hu
  · rename_i slot hslot
    exact List.mem_flatMap.mpr ⟨slot, List.mem_of_getElem? hslot, hu⟩

section
variable {pools : List Pool} {occupied : List String} {r : Request}

/-- A slot is one of the devices that its pool is asked for. -/
theorem gpuSlots_index {slot : GpuSlot} (h : slot ∈ gpuSlots pools occupied r) :
    slot.pool ∈ r.pools ∧ slot.index < (r.amount slot.pool .gpuCount).toNat := by
  unfold gpuSlots at h
  rw [List.mem_insertionSort, List.mem_flatMap] at h
  obtain ⟨poolId, hp, h⟩ := h
  obtain ⟨i, hi, rfl⟩ := List.mem_map.mp h
  exact ⟨(List.mem_insertionSort _).mp hp, List.mem_range.mp hi⟩

/-- No two slots are the same device of the same pool. -/
theorem gpuSlots_nodup (pools : List Pool) (occupied : List String) (hk : r.pools.Nodup) :
    ((gpuSlots pools occupied r).map fun s => (s.pool, s.index)).Nodup := by
  unfold gpuSlots
  rw [((List.perm_insertionSort _ _).map _).nodup_iff, List.map_flatMap, List.nodup_flatMap]
  constructor
  · intro poolId _
    rw [List.map_map]
    exact List.nodup_range.map fun i j he => (Prod.mk.inj he).2
  · have hk' : (r.pools.insertionSort (· ≤ ·)).Nodup :=
      (List.perm_insertionSort _ _).nodup_iff.mpr hk
    refine hk'.imp fun {a b} hne => ?_
    intro x hx hy
    obtain ⟨s, hs, rfl⟩ := List.mem_map.mp hx
    obtain ⟨t, ht, he⟩ := List.mem_map.mp hy
    obtain ⟨i, -, rfl⟩ := List.mem_map.mp hs
    obtain ⟨j, -, rfl⟩ := List.mem_map.mp ht
    exact hne (Prod.mk.inj he).1.symm

/-- The device that an assignment gives to the `i`-th slot. -/
def slotDevice (slots : List GpuSlot) (assigned : String → List String) (i : Nat) : String :=
  match slots[i]? with
  | none => ""
  | some slot => (assigned slot.pool).getD slot.index ""

/-- A placement seats every slot. -/
theorem Placement.assigns {assigned : String → List String} (hk : r.pools.Nodup)
    (h : Placement pools occupied r assigned) :
    Matching.Assigns (candidates (gpuSlots pools occupied r))
      (List.range (gpuSlots pools occupied r).length)
      (slotDevice (gpuSlots pools occupied r) assigned) := by
  set slots := gpuSlots pools occupied r with hslots
  -- The device of a slot is an entry of its pool's share.
  have hdevice : ∀ i, ∀ slot, slots[i]? = some slot →
      ∃ hlt : slot.index < (assigned slot.pool).length,
      slotDevice slots assigned i = (assigned slot.pool)[slot.index] ∧ slot.pool ∈ r.pools := by
    intro i slot hget
    obtain ⟨hpool, hindex⟩ := gpuSlots_index (List.mem_of_getElem? hget)
    have hlt : slot.index < (assigned slot.pool).length := by
      rw [h.count slot.pool hpool]
      exact hindex
    refine ⟨hlt, ?_, hpool⟩
    simp [slotDevice, hget, hlt]
  have hsome : ∀ i ∈ List.range slots.length, ∃ slot, slots[i]? = some slot := by
    intro i hi
    exact ⟨_, List.getElem?_eq_getElem (List.mem_range.mp hi)⟩
  constructor
  · intro i hi
    obtain ⟨slot, hget⟩ := hsome i hi
    obtain ⟨hlt, he, hpool⟩ := hdevice i slot hget
    have hmem := h.free slot.pool hpool _ (List.getElem_mem hlt)
    simp only [candidates, hget]
    rw [he, gpuSlots_candidates (List.mem_of_getElem? hget)]
    exact mem_freeGpus.mpr hmem
  · intro i hi j hj he
    obtain ⟨a, ha⟩ := hsome i hi
    obtain ⟨b, hb⟩ := hsome j hj
    obtain ⟨hlta, hea, hpa⟩ := hdevice i a ha
    obtain ⟨hltb, heb, hpb⟩ := hdevice j b hb
    rw [hea, heb] at he
    have hpool : a.pool = b.pool := by
      by_contra hne
      refine h.apart a.pool hpa b.pool hpb hne _ (List.getElem_mem hlta) ?_
      rw [he]
      exact List.getElem_mem hltb
    have hindex : a.index = b.index := by
      simp only [hpool] at he
      exact (List.Nodup.getElem_inj_iff (h.once b.pool hpb)).mp he
    -- The same device of the same pool is the same slot.
    have hn := gpuSlots_nodup pools occupied hk
    rw [← hslots] at hn
    refine (List.getElem?_inj (by simpa using hi) hn).mp ?_
    rw [List.getElem?_map, List.getElem?_map, ha, hb, Option.map_some, Option.map_some,
      hpool, hindex]

/-- When the search gives up there is no placement. -/
theorem assignGPUs_complete (hk : r.pools.Nodup) (h : assignGPUs pools occupied r = none) :
    ¬ ∃ assigned, Placement pools occupied r assigned := by
  rintro ⟨assigned, hp⟩
  unfold assignGPUs at h
  rw [Option.map_eq_none_iff] at h
  have hnone := Matching.seatAll_complete (candidates_items _) (Nat.lt_succ_self _)
    ⟨by simp, by simp⟩
    (by simpa using List.nodup_range) h (slotDevice (gpuSlots pools occupied r) assigned)
  rw [List.map_nil, List.append_nil] at hnone
  exact hnone (hp.assigns hk)

end

/-- `_assign_gpus`: Python raises `KeyError` for a pool that is asked for devices and is not
there. In Go such a pool has none. Python nests one call for each slot that has to move, and its
interpreter gives up at about a thousand of them; this limit is left out. -/
def assignGpus (pools : List Pool) (occupied : List String) (r : Request) :
    Except String (Option (String → List String)) :=
  if r.pools.any fun poolId => decide (0 < r.amount poolId .gpuCount) &&
    (Table.get (·.id) poolId pools).isNone then
    throw "KeyError"
  else pure (assignGPUs pools occupied r)

/-- The search for a seat ends, at every point of the matching, and it is the one that
`assignGPUs` makes. -/
def SearchEnds (slots : List GpuSlot) : Prop :=
  ∀ (owners : Matching.Owners String) (slot : Nat) (seen : List String),
    ∃ result, Matching.Search (candidates slots) owners slot (candidates slots slot) seen result ∧
      (∀ other, Matching.Search (candidates slots) owners slot (candidates slots slot) seen other →
        other = result) ∧
      Matching.place (candidates slots) owners (gpuFuel slots) slot seen = result

theorem searchEnds (slots : List GpuSlot) : SearchEnds slots := by
  intro owners slot seen
  have hle : Matching.unseen (slots.flatMap (·.candidates)) seen < gpuFuel slots := by
    have hmono := Matching.unseen_mono (slots.flatMap (·.candidates)) (List.nil_subset seen)
    have hcard : Matching.unseen (slots.flatMap (·.candidates)) [] ≤
        (slots.flatMap (·.candidates)).length := by
      simpa [Matching.unseen] using List.toFinset_card_le (slots.flatMap (·.candidates))
    unfold gpuFuel
    omega
  have hs := Matching.place_search (o := owners) (candidates_items slots) (gpuFuel slots) slot
    seen hle
  exact ⟨_, hs, fun other hother => hother.unique hs, rfl⟩

/-- **The matching is exact,** in both implementations. The search ends; an assignment is a
placement; and if there is none, then the request has no placement. The last part is about both
answers of Python that are no assignment, `None` and `KeyError`. -/
theorem gpu_matching_exact (pools : List Pool) (occupied : List String) (r : Request)
    (hk : r.pools.Nodup) :
    SearchEnds (gpuSlots pools occupied r) ∧
    (∀ assigned, assignGPUs pools occupied r = some assigned →
      Placement pools occupied r assigned) ∧
    (assignGPUs pools occupied r = none → ¬ ∃ assigned, Placement pools occupied r assigned) ∧
    (∀ assigned, assignGpus pools occupied r = .ok (some assigned) →
      Placement pools occupied r assigned) ∧
    (∀ result, assignGpus pools occupied r = result → (∀ assigned, result ≠ .ok (some assigned)) →
      ¬ ∃ assigned, Placement pools occupied r assigned) := by
  have hsome : ∀ assigned, assignGPUs pools occupied r = some assigned →
      Placement pools occupied r assigned :=
    fun assigned h => assignGPUs_spec hk h
  refine ⟨searchEnds _, hsome, assignGPUs_complete hk, ?_, ?_⟩
  · intro assigned h
    unfold assignGpus at h
    split at h
    · cases h
    · exact hsome assigned (Except.ok.inj h)
  · intro result h hnot
    unfold assignGpus at h
    split at h
    · -- A pool that is not there lists no device.
      rename_i hmissing
      obtain ⟨poolId, hin, hp⟩ := List.any_eq_true.mp hmissing
      simp only [Bool.and_eq_true, decide_eq_true_eq, Option.isNone_iff_eq_none] at hp
      rintro ⟨assigned, hplaced⟩
      have hcount := hplaced.count poolId hin
      have hpos : 0 < (assigned poolId).length := by omega
      obtain ⟨p, hget, -⟩ := hplaced.free poolId hin _ (List.getElem_mem hpos)
      rw [hp.2] at hget
      cases hget
    · cases hm : assignGPUs pools occupied r with
      | none => exact assignGPUs_complete hk hm
      | some assigned =>
        rw [hm] at h
        exact absurd h.symm (hnot assigned)

/-- Two pools that list one device both get one, because the first has another. -/
theorem gpu_matching_exact_shared : let pools : List Pool := [
      { id := "a", nodeId := "n", cpuMillicores := 1, memoryBytes := 1, diskBytes := 1
        gpuUuids := ["x", "y", "x"] },
      { id := "b", nodeId := "n", cpuMillicores := 1, memoryBytes := 1, diskBytes := 1
        gpuUuids := ["x"] }]
    let r : Request := { pools := ["a", "b"], amount := fun _ => single .gpuCount 1 }
    (∃ assigned, assignGPUs pools [] r = some assigned ∧ assigned "a" = ["y"] ∧
      assigned "b" = ["x"] ∧ Placement pools [] r assigned) ∧
    assignGPUs pools ["y"] r = none ∧ ¬ ∃ assigned, Placement pools ["y"] r assigned := by
  intro pools r
  have hk : r.pools.Nodup := by decide
  have hnone : assignGPUs pools ["y"] r = none := by
    have h : (assignGPUs pools ["y"] r).isNone = true := by decide +kernel
    exact Option.isNone_iff_eq_none.mp h
  refine ⟨?_, hnone, (gpu_matching_exact pools ["y"] r hk).2.2.1 hnone⟩
  have ha : (assignGPUs pools [] r).map (fun f => (f "a", f "b")) =
      some (["y"], ["x"]) := by decide +kernel
  obtain ⟨assigned, h, he⟩ := Option.map_eq_some_iff.mp ha
  obtain ⟨hy, hx⟩ := Prod.mk.inj he
  exact ⟨assigned, h, hy, hx, (gpu_matching_exact pools [] r hk).2.1 assigned h⟩

end Hf2l.Jobs.Scheduler
