import Hf2l.Node.Runs

/-!
# `Hf2l.Node.Sound`: what every call keeps

`Accounts` is the invariant of the ledger, `Sound` the invariant of the whole world: one active
execution a component, epochs that increase, charges within the capacity, and nothing released
whose termination was not confirmed. `Advances` relates a world to a later one: what is released
stays so, and a lease that has expired stays so.

A request that holds the guard of an execution counts on what it has read of it. `Undisturbed`
says that it still may, and `Good` puts together what a call of one request owes to the others.
`Good.update` is the lemma behind every transaction that writes to a row: the update must keep
what `Rewrites` lists, and either leave live rows live or be made under the guard.
-/

set_option autoImplicit false

namespace Hf2l.Node

open Lib Lib.Checked

/-! ### The ledger -/

structure Accounts (capacity : ResourceLimits) (l : Ledger) : Prop where
  keyed : Table.Keyed (·.id) l.executions
  charges : Table.Keyed (·.component) l.shared
  exclusive : ∀ x ∈ l.executions, ∀ y ∈ l.executions, x.active = true → y.active = true →
    x.id.component = y.id.component → x.id = y.id
  cpu : usedCpu l ≤ capacity.cpuMillis
  memory : usedMemory l ≤ capacity.memoryBytes
  storage : usedBytes l ≤ capacity.diskBytes
  fenced : ∀ x ∈ l.executions, ∃ epoch, fenceOf l x.id.component = some epoch ∧ x.id.epoch ≤ epoch
  accepted : ∀ component epoch, fenceOf l component = some epoch →
    ∃ x ∈ l.executions, x.id.component = component ∧ x.id.epoch = epoch
  /-- Rows stand in the order in which they were accepted. -/
  epochs : l.executions.Pairwise fun x y => x.id.component = y.id.component →
    x.id.epoch < y.id.epoch

/-- What an update of a row keeps for the accounts. -/
structure Keeps (x y : Execution) : Prop where
  id : y.id = x.id
  cpuMillis : y.cpuMillis = x.cpuMillis
  memoryBytes : y.memoryBytes = x.memoryBytes
  active : y.active = true → x.active = true

theorem Keeps.refl (x : Execution) : Keeps x x := ⟨rfl, rfl, rfl, fun h => h⟩

section
variable {capacity : ResourceLimits} {l : Ledger} {id : Identity} {f : Execution → Execution}

/-- The row that an update leaves in the place of a row. -/
def updated (id : Identity) (f : Execution → Execution) (x : Execution) : Execution :=
  if x.id = id then f x else x

theorem updateExecution_rows :
    (updateExecution l id f).executions = l.executions.map (updated id f) := rfl

theorem updated_cases {R : Execution → Execution → Prop} (hrefl : ∀ x, R x x)
    (hf : ∀ x ∈ l.executions, x.id = id → R x (f x)) {x : Execution} (hx : x ∈ l.executions) :
    R x (updated id f x) := by
  unfold updated
  by_cases h : x.id = id
  · rw [if_pos h]
    exact hf x hx h
  · rw [if_neg h]
    exact hrefl x

/-- A column of the executions after an update that does not raise it. -/
theorem total_updated {column : Execution → Int}
    (hf : ∀ x ∈ l.executions, x.id = id → column (f x) ≤ column x) :
    Table.total column (updateExecution l id f).executions ≤ Table.total column l.executions := by
  rw [updateExecution_rows, Table.total_map]
  refine Table.total_le fun x hx => ?_
  exact updated_cases (R := fun x y => column y ≤ column x) (fun x => le_refl _) hf hx

/-- A column of the executions after an update that raises it by no more than `extra`. -/
theorem total_raised (column : Execution → Int) (hk : Table.Keyed (·.id) l.executions) {extra : Int}
    (hextra : 0 ≤ extra) (hid : ∀ x, x.id = id → (f x).id = id)
    (hf : ∀ x ∈ l.executions, x.id = id → column (f x) ≤ column x + extra) :
    Table.total column (updateExecution l id f).executions ≤
      Table.total column l.executions + extra := by
  show Table.total column (Table.modify (·.id) id f l.executions) ≤ _
  cases hget : Table.get (·.id) id l.executions with
  | none =>
    rw [Table.modify_eq_self (Table.get_none hget)]
    omega
  | some r =>
    obtain ⟨hr, hrid⟩ := Table.get_mem hget
    rw [hk.modify_eq_put hget (hid r hrid),
      Table.total_put column hk hr ((hid r hrid).trans hrid.symm)]
    have hle := hf r hr hrid
    omega

theorem charge_nonneg {b : Bool} {n : Nat} : (0 : Int) ≤ if b then (n : Int) else 0 := by
  split
  · exact Int.natCast_nonneg n
  · exact le_refl 0

theorem Accounts.update (h : Accounts capacity l) (hid : ∀ x, (f x).id = x.id)
    (hf : ∀ x ∈ l.executions, x.id = id → Keeps x (f x)) (extra : Int) (hextra : 0 ≤ extra)
    (hbytes : ∀ x ∈ l.executions, x.id = id →
      (executionBytes (f x) : Int) ≤ executionBytes x + extra)
    (hroom : usedBytes l + extra ≤ capacity.diskBytes) :
    Accounts capacity (updateExecution l id f) := by
  have hkeeps : ∀ x ∈ l.executions, Keeps x (updated id f x) :=
    fun x hx => updated_cases Keeps.refl hf hx
  replace hid : ∀ x, x.id = id → (f x).id = id := fun x hx => (hid x).trans hx
  refine ⟨h.keyed.modify hid, h.charges, ?_, ?_, ?_, ?_, ?_, ?_, ?_⟩
  · -- exclusive
    intro x hx y hy hax hay hc
    rw [updateExecution_rows] at hx hy
    obtain ⟨x₀, hx₀, rfl⟩ := List.mem_map.mp hx
    obtain ⟨y₀, hy₀, rfl⟩ := List.mem_map.mp hy
    rw [(hkeeps x₀ hx₀).id, (hkeeps y₀ hy₀).id] at hc
    have he := h.exclusive x₀ hx₀ y₀ hy₀ ((hkeeps x₀ hx₀).active hax)
      ((hkeeps y₀ hy₀).active hay) hc
    exact (hkeeps x₀ hx₀).id.trans (he.trans (hkeeps y₀ hy₀).id.symm)
  · refine le_trans (total_updated fun x hx hxid => ?_) h.cpu
    have hk := hf x hx hxid
    by_cases ha : (f x).active = true
    · rw [if_pos ha, if_pos (hk.active ha), hk.cpuMillis]
    · rw [if_neg ha]
      exact charge_nonneg
  · refine le_trans (total_updated fun x hx hxid => ?_) h.memory
    have hk := hf x hx hxid
    by_cases ha : (f x).active = true
    · rw [if_pos ha, if_pos (hk.active ha), hk.memoryBytes]
    · rw [if_neg ha]
      exact charge_nonneg
  · have hraise := total_raised (fun x => (executionBytes x : Int)) h.keyed hextra hid hbytes
    have hshared : (updateExecution l id f).shared = l.shared := rfl
    unfold usedBytes at hroom ⊢
    rw [hshared]
    omega
  · -- fenced
    intro x hx
    rw [updateExecution_rows] at hx
    obtain ⟨x₀, hx₀, rfl⟩ := List.mem_map.mp hx
    rw [(hkeeps x₀ hx₀).id]
    exact h.fenced x₀ hx₀
  · -- accepted
    intro component epoch he
    obtain ⟨x, hx, hcomponent, hepoch⟩ := h.accepted component epoch he
    refine ⟨updated id f x, updateExecution_rows ▸ List.mem_map_of_mem hx, ?_, ?_⟩
    · rw [(hkeeps x hx).id, hcomponent]
    · rw [(hkeeps x hx).id, hepoch]
  · -- epochs
    rw [updateExecution_rows, List.pairwise_map]
    refine h.epochs.imp_of_mem fun {x y} hx hy hxy => ?_
    rw [(hkeeps x hx).id, (hkeeps y hy).id]
    exact hxy

end

/-! ### New executions -/

variable {id : Identity} {l : Ledger} {capacity : ResourceLimits} {w : World} {pid : Nat}

theorem record_ok {allowStale : Bool} {x : Execution}
    (h : record l id allowStale = .ok x) : Table.get (·.id) id l.executions = some x := by
  unfold record at h
  split at h
  · cases h
  · rename_i y hy
    split at h
    · cases h
    · rw [hy, pure_ok.mp h]

/-- A new execution that was charged for. -/
structure Charged (capacity : ResourceLimits) (c : Clocks) (spec : Spec) (l l' : Ledger) :
    Prop where
  epoch : ∀ epoch, fenceOf l spec.identity.component = some epoch → epoch < spec.identity.epoch
  free : ∀ x ∈ l.executions, x.id.component = spec.identity.component → x.active = false
  cpu : usedCpu l + spec.resources.cpuMillis ≤ capacity.cpuMillis
  memory : usedMemory l + spec.resources.memoryBytes ≤ capacity.memoryBytes
  storage : usedBytes l + (spec.resources.diskBytes * 2 + storageHeadroomBytes : Nat) ≤
    capacity.diskBytes
  ledger : l' = { l with
    fences := Table.upsert (·.component) ⟨spec.identity.component, spec.identity.epoch⟩ l.fences
    executions := l.executions ++ [newExecution c spec] }

/-- The usage that is read is what the executions and the shared charges come to. -/
theorem nodeStorageUsage_ok {used : Int} (h : nodeStorageUsage l = .ok used) :
    used = usedBytes l := by
  unfold nodeStorageUsage at h
  split at h
  · cases h
  · exact (pure_ok.mp h).symm

theorem charge_ok {c : Clocks} {spec : Spec} {l' : Ledger}
    (h : charge capacity c spec l = .ok l') : Charged capacity c spec l l' := by
  simp only [charge, block_ok] at h
  obtain ⟨hfence, hfree, used, hused, budget, hbudget, hroom, rfl⟩ := h
  obtain rfl := nodeStorageUsage_ok hused
  have hb : budget = spec.resources.diskBytes * 2 + storageHeadroomBytes := by
    unfold executionStorageBudget at hbudget
    split at hbudget
    · cases hbudget
    · exact (pure_ok.mp hbudget).symm
  subst hb
  simp only [not_or, not_lt] at hroom
  refine ⟨fun epoch he => ?_, fun x hx hc => ?_, by omega, by omega, by omega, rfl⟩
  · rw [he] at hfence
    simpa using hfence
  · by_contra ha
    refine hfree (List.any_eq_true.mpr ⟨x, hx, ?_⟩)
    simp [hc, Bool.not_eq_false _ ▸ ha]

theorem Accounts.charged {c : Clocks} {spec : Spec} {l' : Ledger}
    (h : Accounts capacity l) (hnew : Table.get (·.id) spec.identity l.executions = none)
    (hc : Charged capacity c spec l l') : Accounts capacity l' := by
  obtain ⟨hepoch, hfree, hcpu, hmemory, hstorage, rfl⟩ := hc
  have hfence : ∀ component, fenceOf { l with
      fences := Table.upsert (·.component) ⟨spec.identity.component, spec.identity.epoch⟩ l.fences
      executions := l.executions ++ [newExecution c spec] } component =
      if component = spec.identity.component then some spec.identity.epoch
      else fenceOf l component := by
    intro component
    unfold fenceOf
    rw [Table.get_upsert]
    by_cases he : component = spec.identity.component <;> simp [he]
  refine ⟨h.keyed.concat (Table.get_none hnew), h.charges, ?_, ?_, ?_, ?_, ?_, ?_, ?_⟩
  · -- exclusive: the component had no active execution
    intro x hx y hy hax hay hxy
    rcases List.mem_append.mp hx with hx | hx <;> rcases List.mem_append.mp hy with hy | hy
    · exact h.exclusive x hx y hy hax hay hxy
    · rw [List.mem_singleton.mp hy] at hxy
      rw [hfree x hx hxy] at hax
      cases hax
    · rw [List.mem_singleton.mp hx] at hxy
      rw [hfree y hy hxy.symm] at hay
      cases hay
    · rw [List.mem_singleton.mp hx, List.mem_singleton.mp hy]
  · unfold usedCpu at hcpu ⊢
    simpa [newExecution, Execution.active] using hcpu
  · unfold usedMemory at hmemory ⊢
    simpa [newExecution, Execution.active] using hmemory
  · have hbytes : executionBytes (newExecution c spec) = spec.resources.diskBytes * 2 +
      storageHeadroomBytes := by
      simp [executionBytes, newExecution]
    unfold usedBytes at hstorage ⊢
    rw [Table.total_append, Table.total_cons, Table.total_nil, hbytes]
    dsimp only
    omega
  · -- fenced
    intro x hx
    rw [hfence]
    rcases Table.mem_concat.mp hx with hx | rfl
    · obtain ⟨epoch, he, hle⟩ := h.fenced x hx
      by_cases hcomp : x.id.component = spec.identity.component
      · have hlt := hepoch epoch (hcomp ▸ he)
        exact ⟨spec.identity.epoch, if_pos hcomp, by omega⟩
      · exact ⟨epoch, (if_neg hcomp).trans he, hle⟩
    · exact ⟨spec.identity.epoch, if_pos rfl, le_refl _⟩
  · -- accepted
    intro component epoch he
    rw [hfence] at he
    by_cases hcomp : component = spec.identity.component
    · rw [if_pos hcomp] at he
      exact ⟨newExecution c spec, List.mem_append_right _ (List.mem_singleton.mpr rfl), hcomp.symm,
        Option.some.inj he⟩
    · rw [if_neg hcomp] at he
      obtain ⟨x, hx, hx'⟩ := h.accepted component epoch he
      exact ⟨x, List.mem_append_left _ hx, hx'⟩
  · -- epochs: every row of the component is under its fence
    refine List.pairwise_append.mpr ⟨h.epochs, List.pairwise_singleton _ _, fun x hx y hy hxy => ?_⟩
    rw [List.mem_singleton.mp hy] at hxy ⊢
    obtain ⟨epoch, he, hle⟩ := h.fenced x hx
    have hlt := hepoch epoch (hxy ▸ he)
    show x.id.epoch < spec.identity.epoch
    omega

/-! ### Shared charges -/

/-- The ledger after a change of the shared charges that leaves room. -/
theorem Accounts.share (h : Accounts capacity l) {shared : List SharedAuxiliary}
    (hk : Table.Keyed (·.component) shared)
    (hroom : usedBytes { l with shared := shared } ≤ capacity.diskBytes) :
    Accounts capacity { l with shared := shared } :=
  ⟨h.keyed, hk, h.exclusive, h.cpu, h.memory, hroom, h.fenced, h.accepted, h.epochs⟩

/-! ### The world -/

/-- The lease has run out, or belongs to an earlier boot. -/
def Expired (c : Clocks) (x : Execution) : Prop := x.bootId ≠ c.bootId ∨ x.leaseUntil ≤ c.clock

/-- The states of a row whose execution is known to be absent. -/
def Ended (state : ExecutionState) : Prop :=
  state = .stopping ∨ state = .stopped ∨ state = .quarantined ∨ state = .released

structure Sound (capacity : ResourceLimits) (w : World) : Prop where
  accounts : Accounts capacity w.ledger
  released : ∀ x ∈ w.ledger.executions, x.state = .released → x.id ∈ w.confirmed
  absent : ∀ x ∈ w.ledger.executions, x.executorAbsent = true → x.id ∈ w.confirmed ∧ Ended x.state
  boots : ∀ x ∈ w.ledger.executions, x.bootId ≤ w.clocks.bootId
  guards : Table.Keyed (·.1) w.held

/-- How a row stands in a later world: released rows stay released, expired leases stay expired. -/
structure Ages (c c' : Clocks) (x y : Execution) : Prop where
  id : y.id = x.id
  released : x.state = .released → y.state = .released
  expired : Expired c x → Expired c' y

def Advances (w w' : World) : Prop :=
  ∀ x ∈ w.ledger.executions, ∃ y ∈ w'.ledger.executions, Ages w.clocks w'.clocks x y

theorem Advances.refl (w : World) : Advances w w :=
  fun x hx => ⟨x, hx, rfl, fun h => h, fun h => h⟩

theorem Advances.trans {w' w'' : World} (h : Advances w w') (h' : Advances w' w'') :
    Advances w w'' := by
  intro x hx
  obtain ⟨y, hy, hxy⟩ := h x hx
  obtain ⟨z, hz, hyz⟩ := h' y hy
  exact ⟨z, hz, hyz.id.trans hxy.id, fun hr => hyz.released (hxy.released hr),
    fun he => hyz.expired (hxy.expired he)⟩

/-! ### What requests count on -/

/-- The request holds the guard of the execution. -/
def Holds (w : World) (pid : Nat) (id : Identity) : Prop := (Guard.execution id, pid) ∈ w.held

/-- The execution is neither released nor absent. -/
def Live (w : World) (id : Identity) : Prop :=
  ∀ x ∈ w.ledger.executions, x.id = id → x.state ≠ .released ∧ x.executorAbsent = false

/-- What a request that holds a guard knows of its execution, it still knows. -/
structure Undisturbed (pid : Nat) (w w' : World) : Prop where
  holds : ∀ id, Holds w pid id → Holds w' pid id
  live : ∀ id, Holds w pid id → Live w id → Live w' id
  confirmed : ∀ id, Holds w pid id → id ∈ w.confirmed → id ∈ w'.confirmed

theorem Undisturbed.refl (pid : Nat) (w : World) : Undisturbed pid w w :=
  ⟨fun _ h => h, fun _ _ h => h, fun _ _ h => h⟩

theorem Undisturbed.trans {w' w'' : World} (h : Undisturbed pid w w')
    (h' : Undisturbed pid w' w'') :
    Undisturbed pid w w'' :=
  ⟨fun id hh => h'.holds id (h.holds id hh),
    fun id hh hl => h'.live id (h.holds id hh) (h.live id hh hl),
    fun id hh hc => h'.confirmed id (h.holds id hh) (h.confirmed id hh hc)⟩

theorem Sound.holds_unique (h : Sound capacity w) {pid' : Nat}
    (hh : Holds w pid id) (hh' : Holds w pid' id) : pid = pid' :=
  congrArg Prod.snd (Table.Keyed.eq_of_key_eq h.guards hh hh' rfl)

/-- What a request's step gives. -/
structure Good (capacity : ResourceLimits) (pid : Nat) (w w' : World) : Prop where
  sound : Sound capacity w'
  advances : Advances w w'
  others : ∀ other, other ≠ pid → Undisturbed other w w'

theorem Good.refl (pid : Nat) (h : Sound capacity w) : Good capacity pid w w :=
  ⟨h, Advances.refl w, fun other _ => Undisturbed.refl other w⟩

/-! ### Updates of a row -/

/-- What an update of a row keeps. -/
structure Rewrites (w : World) (x y : Execution) : Prop extends Keeps x y where
  bootId : y.bootId = x.bootId
  lease : Expired w.clocks x → y.leaseUntil = x.leaseUntil
  released : y.state = .released → x.id ∈ w.confirmed
  absent : y.executorAbsent = true → x.id ∈ w.confirmed ∧ Ended y.state

theorem Keeps.stays_released {x y : Execution} (h : Keeps x y) (hx : x.state = .released) :
    y.state = .released := by
  by_contra hy
  have ha := h.active (bne_iff_ne.mpr hy)
  exact bne_iff_ne.mp ha hx

/-- The update leaves a live row live. -/
def KeepsLive (f : Execution → Execution) : Prop :=
  ∀ x, x.state ≠ .released → x.executorAbsent = false → (f x).state ≠ .released ∧
    (f x).executorAbsent = false

/-- An update of a row is good if it keeps the live rows live, or is made under the guard. -/
theorem Good.update (h : Sound capacity w)
    {f : Execution → Execution} (hf : ∀ x ∈ w.ledger.executions, x.id = id → Rewrites w x (f x))
    (haccounts : Accounts capacity (updateExecution w.ledger id f))
    (hguard : KeepsLive f ∨ Holds w pid id) :
    Good capacity pid w { w with ledger := updateExecution w.ledger id f } := by
  have hrefl : ∀ x ∈ w.ledger.executions, Rewrites w x x := fun x hx =>
    ⟨Keeps.refl x, rfl, fun _ => rfl, h.released x hx, h.absent x hx⟩
  have hrow : ∀ x ∈ w.ledger.executions, Rewrites w x (updated id f x) := by
    intro x hx
    unfold updated
    split
    · next hid => exact hf x hx hid
    · exact hrefl x hx
  refine ⟨⟨haccounts, ?_, ?_, ?_, h.guards⟩, ?_,
    fun other hother => ⟨fun _ hh => hh, ?_, fun _ _ hc => hc⟩⟩
  · intro y hy hr
    obtain ⟨x, hx, rfl⟩ := List.mem_map.mp hy
    exact (hrow x hx).id ▸ (hrow x hx).released hr
  · intro y hy ha
    obtain ⟨x, hx, rfl⟩ := List.mem_map.mp hy
    obtain ⟨hc, he⟩ := (hrow x hx).absent ha
    exact ⟨(hrow x hx).id ▸ hc, he⟩
  · intro y hy
    obtain ⟨x, hx, rfl⟩ := List.mem_map.mp hy
    exact (hrow x hx).bootId.trans_le (h.boots x hx)
  · -- advances
    intro x hx
    refine ⟨updated id f x, List.mem_map.mpr ⟨x, hx, rfl⟩, (hrow x hx).id,
      (hrow x hx).stays_released, fun he => ?_⟩
    unfold Expired
    rw [(hrow x hx).bootId, (hrow x hx).lease he]
    exact he
  · -- live: another request cannot hold the guard too
    intro other' hh hl y hy hid
    obtain ⟨x, hx, rfl⟩ := List.mem_map.mp hy
    have hxid : x.id = other' := (hrow x hx).id.symm.trans hid
    obtain ⟨hstate, habsent⟩ := hl x hx hxid
    show (updated id f x).state ≠ .released ∧ (updated id f x).executorAbsent = false
    unfold updated
    split
    · next he =>
      rcases hguard with hlive | hheld
      · exact hlive x hstate habsent
      · exact absurd (h.holds_unique hh (hxid ▸ he ▸ hheld)) hother
    · exact ⟨hstate, habsent⟩

/-- An update that takes no more of the disk. -/
theorem Good.rewrite (h : Sound capacity w) {f : Execution → Execution} (hid : ∀ x, (f x).id = x.id)
    (hf : ∀ x ∈ w.ledger.executions, x.id = id → Rewrites w x (f x))
    (hbytes : ∀ x, executionBytes (f x) ≤ executionBytes x) (hguard : KeepsLive f ∨
      Holds w pid id) :
    Good capacity pid w { w with ledger := updateExecution w.ledger id f } := by
  refine Good.update h hf
    (h.accounts.update hid (fun x hx hxid => (hf x hx hxid).toKeeps) 0 (le_refl 0)
    (fun x _ _ => ?_) ?_)
    hguard
  · have hle := hbytes x
    omega
  · rw [add_zero]
    exact h.accounts.storage

end Hf2l.Node
