import Mathlib.Logic.Function.Basic
import Mathlib.Tactic.SplitIfs

/-!
# `Hf2l.Lib.Register`: registers with generations and fences

A register holds a value under a name. Its generation counts the writes, and its fence counts
the tickets that were issued for it. A ticket is a right to write once: it is issued at a
generation and under a new fence, which closes the tickets issued before it. Anyone may also
write without a ticket, and nothing is said about time.

A step has a label. `Step.generation` and `Step.fence` say that the two counters count the
labels, and `Step.value` that the value changes with the generation only. `Fenced` is the
invariant, and `Step.fenced` says that every step keeps it: fences of the tickets of a register
are distinct, the ticket that is active has the fence of its register, and a ticket that was
used has a generation before the present one, of its own. `Pinned` is the reason why a ticket
writes over the value it was issued at: a register whose generation has not moved has the same
value.

Names, identifiers of tickets and values are arbitrary types. Registers and tickets are partial
functions, so that a system that keeps them in tables refines this one by its lookups.
-/

set_option autoImplicit false

namespace Hf2l.Lib.Register

/-- A register. -/
structure Cell (V : Type) where
  value : V
  generation : Nat
  fence : Nat

inductive Status where
  | active
  | used
  | closed
deriving DecidableEq, Repr

structure Ticket (K : Type) where
  name : K
  expected : Nat
  fence : Nat
  status : Status

structure State (K I V : Type) where
  cell : K → Option (Cell V)
  ticket : I → Option (Ticket K)

variable {K I V : Type}

section Operations

variable [DecidableEq K] [DecidableEq I]

/-- The tickets of the register that are active are closed. -/
def Ticket.closedFor (k : K) (t : Ticket K) : Ticket K :=
  if t.name = k ∧ t.status = .active then { t with status := .closed } else t

namespace State

variable (s : State K I V)

def write (k : K) (c : Cell V) : State K I V := { s with cell := Function.update s.cell k (some c) }

def stamp (i : I) (t : Ticket K) : State K I V :=
  { s with ticket := Function.update s.ticket i (some t) }

/-- Issue a ticket for the register `k`. -/
def issue (k : K) (c : Cell V) (i : I) : State K I V :=
  ({ s with ticket := fun j => (s.ticket j).map (Ticket.closedFor k) }.write k
    { c with fence := c.fence + 1 }).stamp i
    ⟨k, c.generation, c.fence + 1, .active⟩

end State

/-- What a step is for. -/
inductive Label (K I : Type) where
  | stay
  | write (k : K)
  | issue (k : K) (i : I)
  | close (i : I)
  | use (i : I)
deriving DecidableEq, Repr

/-- The register a step with this label writes. -/
def State.written (s : State K I V) : Label K I → Option K
  | .write k => some k
  | .use i => (s.ticket i).map (·.name)
  | _ => none

/-- The register a step with this label issues a ticket for. -/
def Label.issued : Label K I → Option K
  | .issue k _ => some k
  | _ => none

/-- One step of the registers. -/
inductive Step (s : State K I V) : Label K I → State K I V → Prop
  | stay : Step s .stay s
  | create (k : K) (v : V) (hk : s.cell k = none) : Step s (.write k) (s.write k ⟨v, 1, 0⟩)
  | write (k : K) (c : Cell V) (v : V) (hk : s.cell k = some c) :
    Step s (.write k) (s.write k { c with value := v, generation := c.generation + 1 })
  | issue (k : K) (c : Cell V) (i : I) (hk : s.cell k = some c) (hi : s.ticket i = none) :
    Step s (.issue k i) (s.issue k c i)
  | close (i : I) (t : Ticket K) (hi : s.ticket i = some t) :
    Step s (.close i) (s.stamp i { t with status := .closed })
  | use (i : I) (t : Ticket K) (c : Cell V) (v : V) (hi : s.ticket i = some t)
    (hk : s.cell t.name = some c) (hg : c.generation = t.expected) :
    Step s (.use i)
      ((s.write t.name { c with value := v, generation := c.generation + 1 }).stamp i
        { t with status := .used })

end Operations

/-! ### Registers -/

section Cells

variable {s s' : State K I V} {k : K}

/-- The generation of a register, 0 before it is created. -/
def State.generation (s : State K I V) (k : K) : Nat := (s.cell k).elim 0 (·.generation)

/-- The fence of a register, 0 before it is created. -/
def State.fence (s : State K I V) (k : K) : Nat := (s.cell k).elim 0 (·.fence)

def State.value (s : State K I V) (k : K) : Option V := (s.cell k).map (·.value)

variable [DecidableEq K]

/-- What a write does to the register `k`. -/
theorem State.write_cell (s : State K I V) (k' k : K) (c : Cell V) :
    (s.write k' c).cell k = if k = k' then some c else s.cell k :=
  Function.update_apply ..

variable [DecidableEq I] {label : Label K I}

section
variable (h : Step s label s')
include h

/-- What a step does to one register: it is written, a ticket is issued for it, or nothing. -/
theorem Step.cell (k : K) : (s.written label = some k ∧ label.issued ≠ some k ∧
        ∃ v, s'.cell k = some ⟨v, s.generation k + 1, s.fence k⟩) ∨
      (s.written label ≠ some k ∧ label.issued = some k ∧
        ∃ c, s.cell k = some c ∧ s'.cell k = some { c with fence := c.fence + 1 }) ∨
      (s.written label ≠ some k ∧ label.issued ≠ some k ∧ s'.cell k = s.cell k) := by
  -- A step with another register in its label leaves `k` alone.
  cases h with
  | stay | close i t hi =>
    exact Or.inr (Or.inr ⟨by simp [State.written], by simp [Label.issued], rfl⟩)
  | create k' v hk | write k' c v hk =>
    by_cases he : k' = k
    · subst he
      refine Or.inl ⟨rfl, by simp [Label.issued], v, ?_⟩
      simp [State.write_cell, State.generation, State.fence, hk]
    · exact Or.inr (Or.inr ⟨by simpa [State.written] using he, by simp [Label.issued],
        by rw [State.write_cell, if_neg fun e => he e.symm]⟩)
  | issue k' c i hk hi =>
    by_cases he : k' = k
    · subst he
      exact Or.inr (Or.inl ⟨by simp [State.written], rfl, c, hk, Function.update_self ..⟩)
    · exact Or.inr (Or.inr ⟨by simp [State.written], by simpa [Label.issued] using he,
        Function.update_of_ne (fun e => he e.symm) ..⟩)
  | use i t c v hi hk hg =>
    have hw : s.written (.use i) = some t.name := by simp [State.written, hi]
    by_cases he : t.name = k
    · subst he
      refine Or.inl ⟨hw, by simp [Label.issued], v, ?_⟩
      exact (Function.update_self ..).trans (by simp [State.generation, State.fence, hk])
    · exact Or.inr (Or.inr ⟨by simpa [hw] using he, by simp [Label.issued],
        Function.update_of_ne (fun e => he e.symm) ..⟩)

/-- **The generation counts the writes.** -/
theorem Step.generation (k : K) :
    s'.generation k = s.generation k + if s.written label = some k then 1 else 0 := by
  rcases h.cell k with ⟨hw, -, v, hv⟩ | ⟨hw, -, c, hc, hc'⟩ | ⟨hw, -, hc⟩
  · rw [if_pos hw]
    simp [State.generation, hv]
  · rw [if_neg hw]
    simp [State.generation, hc, hc']
  · rw [if_neg hw]
    simp [State.generation, hc]

/-- **The fence counts the tickets.** -/
theorem Step.fence (k : K) : s'.fence k = s.fence k + if label.issued = some k then 1 else 0 := by
  rcases h.cell k with ⟨-, hi, v, hv⟩ | ⟨-, hi, c, hc, hc'⟩ | ⟨-, hi, hc⟩
  · rw [if_neg hi]
    simp [State.fence, hv]
  · rw [if_pos hi]
    simp [State.fence, hc, hc']
  · rw [if_neg hi]
    simp [State.fence, hc]

/-- **A register that is not written keeps its value.** -/
theorem Step.value (hw : s.written label ≠ some k) : s'.value k = s.value k := by
  rcases h.cell k with ⟨hw', -, -⟩ | ⟨-, -, c, hc, hc'⟩ | ⟨-, -, hc⟩
  · exact absurd hw' hw
  · simp [State.value, hc, hc']
  · simp [State.value, hc]

end

/-- The register has left generation `g`, or it has the value `v`. -/
def Pinned (k : K) (g : Nat) (v : Option V) (s : State K I V) : Prop :=
  g ≤ s.generation k ∧ (s.generation k = g → s.value k = v)

/-- **The value of a register does not change within a generation.** -/
theorem Step.pinned (h : Step s label s') {g : Nat} {v : Option V} (hp : Pinned k g v s) :
    Pinned k g v s' := by
  have hgen := h.generation k
  by_cases hw : s.written label = some k
  · rw [if_pos hw] at hgen
    exact ⟨by have := hp.1; omega, fun hg => by have := hp.1; omega⟩
  · rw [if_neg hw] at hgen
    exact ⟨by have := hp.1; omega, fun hg => (h.value hw).trans (hp.2 (by omega))⟩

end Cells

/-! ### Tickets -/

section Tickets

variable [DecidableEq K] [DecidableEq I] {s s' : State K I V} {label : Label K I} {i : I}

/-- A ticket keeps its register, its generation and its fence. -/
theorem Step.ticket (h : Step s label s') {t : Ticket K} (hi : s.ticket i = some t) :
    ∃ status, s'.ticket i = some { t with status } := by
  have hstamp : ∀ (r : State K I V) (j : I) (u : Ticket K) (status : Status), r.ticket = s.ticket →
      s.ticket j = some u →
        ∃ x, (r.stamp j { u with status }).ticket i = some { t with status := x } := by
    intro r j u status hr hj
    by_cases he : i = j
    · subst he
      rw [hi, Option.some.injEq] at hj
      subst hj
      exact ⟨status, Function.update_self ..⟩
    · refine ⟨t.status, (Function.update_of_ne he ..).trans ?_⟩
      rw [hr, hi]
  cases h with
  | stay | create k v _ | write k c v _ => exact ⟨t.status, hi⟩
  | issue k c j _ hj =>
    have hne : i ≠ j := by
      rintro rfl
      simp [hi] at hj
    have hmap : (s.issue k c j).ticket i = (s.ticket i).map (Ticket.closedFor k) :=
      Function.update_of_ne hne ..
    refine ⟨(t.closedFor k).status, ?_⟩
    rw [hmap, hi, Option.map_some, Option.some.injEq]
    unfold Ticket.closedFor
    split_ifs <;> rfl
  | close j u hj => exact hstamp s j u _ rfl hj
  | use j u c v hj _ _ => exact hstamp (s.write ..) j u _ rfl hj

/-- A ticket appears with the step that issues it. -/
theorem Step.appears (h : Step s label s') (hi : s.ticket i = none) {t : Ticket K}
    (hi' : s'.ticket i = some t) :
    label = .issue t.name i := by
  have hstamp : ∀ (r : State K I V) (j : I) (u x : Ticket K), r.ticket = s.ticket →
      s.ticket j = some u → (r.stamp j x).ticket i ≠ some t := by
    intro r j u x hr hj he
    have hne : i ≠ j := by
      rintro rfl
      simp [hi] at hj
    have : (r.stamp j x).ticket i = s.ticket i :=
      (Function.update_of_ne hne ..).trans (congrFun hr i)
    rw [this, hi] at he
    simp at he
  cases h with
  | stay => simp [hi] at hi'
  | create k v _ | write k c v _ => simp [State.write, hi] at hi'
  | issue k c j _ _ =>
    by_cases he : i = j
    · subst he
      rw [show (s.issue k c i).ticket i = _ from Function.update_self .., Option.some.injEq] at hi'
      rw [← hi']
    · rw [show (s.issue k c j).ticket i = (s.ticket i).map _ from Function.update_of_ne he ..,
        hi] at hi'
      simp at hi'
  | close j u hj => exact absurd hi' (hstamp s j u _ rfl hj)
  | use j u c v hj _ _ => exact absurd hi' (hstamp (s.write ..) j u _ rfl hj)

/-- The ticket was issued for the register `k` at generation `g`, when it had the value `v`. -/
structure Since (i : I) (k : K) (g : Nat) (v : Option V) (s : State K I V) : Prop where
  ticket : ∃ t, s.ticket i = some t ∧ t.name = k ∧ t.expected = g
  pinned : Pinned k g v s

/-- What a new ticket is. -/
theorem Step.issued {k : K} (h : Step s (.issue k i) s') :
    s.ticket i = none ∧ s'.ticket i = some ⟨k, s.generation k, s'.fence k, .active⟩ ∧
      Since i k (s.generation k) (s.value k) s' := by
  have hgen := h.generation k
  have hvalue : s'.value k = s.value k := h.value (by simp [State.written])
  have hpin : Pinned k (s.generation k) (s.value k) s' := by
    simp only [State.written, reduceCtorEq, if_false, Nat.add_zero] at hgen
    exact ⟨by omega, fun _ => hvalue⟩
  have hfence := h.fence k
  cases h with
  | issue _ c _ hk hi =>
    have hnew : (s.issue k c i).ticket i = some ⟨k, c.generation, c.fence + 1, .active⟩ :=
      Function.update_self ..
    have hg : s.generation k = c.generation := by simp [State.generation, hk]
    have hf : (s.issue k c i).fence k = c.fence + 1 := by
      rw [hfence]
      simp [State.fence, hk, Label.issued]
    refine ⟨hi, by rw [hnew, hg, hf], ⟨_, hnew, rfl, hg.symm⟩, hpin⟩

theorem Step.since (h : Step s label s') {k : K} {g : Nat} {v : Option V} (hs : Since i k g v s) :
    Since i k g v s' := by
  obtain ⟨t, ht, hname, hexp⟩ := hs.ticket
  obtain ⟨status, ht'⟩ := h.ticket ht
  exact ⟨⟨_, ht', hname, hexp⟩, h.pinned hs.pinned⟩

/-- **A ticket writes over the value its register had when it was issued.** -/
theorem Step.used (h : Step s (.use i) s') {k : K} {g : Nat} {v : Option V} (hs : Since i k g v s) :
    s.value k = v := by
  obtain ⟨t, ht, hname, hexp⟩ := hs.ticket
  cases h with
  | use _ u c x hu hk hg =>
    rw [ht, Option.some.injEq] at hu
    subst hu hname
    refine hs.pinned.2 ?_
    rw [← hexp, ← hg]
    simp [State.generation, hk]

end Tickets

/-- What is known of one ticket. -/
structure Issued (s : State K I V) (t : Ticket K) (c : Cell V) : Prop where
  cell : s.cell t.name = some c
  expected : t.expected ≤ c.generation
  fence : t.fence ≤ c.fence
  active : t.status = .active → t.fence = c.fence
  used : t.status = .used → t.expected < c.generation

structure Fenced (s : State K I V) : Prop where
  issued : ∀ i t, s.ticket i = some t → ∃ c, Issued s t c
  distinct : ∀ i j t u, s.ticket i = some t → s.ticket j = some u → t.name = u.name →
    t.fence = u.fence → i = j
  once : ∀ i j t u, s.ticket i = some t → s.ticket j = some u → t.name = u.name → t.status = .used →
    u.status = .used → t.expected = u.expected → i = j

namespace Fenced

variable {s s' : State K I V}

variable {i : I} {t : Ticket K} {c : Cell V} {k : K}

/-- **At most one ticket of a register is active.** -/
theorem active_unique (h : Fenced s) {j : I} {u : Ticket K} (hi : s.ticket i = some t)
    (hj : s.ticket j = some u) (hn : t.name = u.name) (ht : t.status = .active)
    (hu : u.status = .active) : i = j := by
  obtain ⟨c, hc⟩ := h.issued i t hi
  obtain ⟨x, hx⟩ := h.issued j u hj
  have hsame : c = x := by
    have := hc.cell
    rw [hn, hx.cell, Option.some.injEq] at this
    exact this.symm
  subst hsame
  exact h.distinct i j t u hi hj hn ((hc.active ht).trans (hx.active hu).symm)

theorem empty : Fenced (⟨fun _ => none, fun _ => none⟩ : State K I V) :=
  ⟨fun i t h => by simp at h, fun i j t u h => by simp at h, fun i j t u h => by simp at h⟩

/-- A step that leaves the tickets alone keeps what is known of them, if it keeps the fences
and does not take a generation back. -/
theorem of_cells (h : Fenced s) (ht : s'.ticket = s.ticket)
    (hc : ∀ k c, s.cell k = some c → ∃ c', s'.cell k = some c' ∧ c'.fence = c.fence ∧
      c.generation ≤ c'.generation) :
    Fenced s' where
  issued i t hi := by
    rw [ht] at hi
    obtain ⟨c, hcell, hexp, hfence, hact, hused⟩ := h.issued i t hi
    obtain ⟨c', hc', hf, hg⟩ := hc t.name c hcell
    exact ⟨c', hc', by omega, by omega, fun ha => by rw [hf]; exact hact ha,
      fun hu => by have := hused hu; omega⟩
  distinct := by
    rw [ht]
    exact h.distinct
  once := by
    rw [ht]
    exact h.once

variable [DecidableEq K] [DecidableEq I]

omit [DecidableEq I] in
/-- A write to one register. -/
theorem write (h : Fenced s) (hk : s.cell k = some c) (v : V) :
    Fenced (s.write k { c with value := v, generation := c.generation + 1 }) := by
  refine h.of_cells rfl fun k' c' hc' => ?_
  by_cases he : k' = k
  · subst he
    rw [hk, Option.some.injEq] at hc'
    subst hc'
    exact ⟨_, Function.update_self .., rfl, Nat.le_succ _⟩
  · exact ⟨c', (Function.update_of_ne he ..).trans hc', rfl, Nat.le_refl _⟩

omit [DecidableEq I] in
theorem create (h : Fenced s) (hk : s.cell k = none) (v : V) : Fenced (s.write k ⟨v, 1, 0⟩) := by
  refine h.of_cells rfl fun k' c' hc' => ?_
  have hne : k' ≠ k := by
    rintro rfl
    simp [hk] at hc'
  exact ⟨c', (Function.update_of_ne hne ..).trans hc', rfl, Nat.le_refl _⟩

omit [DecidableEq K] in
/-- A ticket that is no longer active. -/
theorem stamp (h : Fenced s) (hi : s.ticket i = some t) {status : Status} (hs : status ≠ .active)
    (hused : status = .used → (∃ c, s.cell t.name = some c ∧ t.expected < c.generation) ∧
      ∀ j u, s.ticket j = some u → u.name = t.name → u.status = .used → u.expected ≠ t.expected) :
    Fenced (s.stamp i { t with status }) := by
  -- A ticket after the stamp is that of before, up to its status.
  have hold : ∀ j u, (s.stamp i { t with status }).ticket j = some u →
      j = i ∧ u = { t with status } ∨ j ≠ i ∧ s.ticket j = some u := by
    intro j u hj
    by_cases he : j = i
    · subst he
      rw [show (s.stamp j { t with status }).ticket j = _ from Function.update_self ..,
        Option.some.injEq] at hj
      exact Or.inl ⟨rfl, hj.symm⟩
    · exact Or.inr ⟨he, (Function.update_of_ne he ..).symm.trans hj⟩
  have hbefore : ∀ j u, (s.stamp i { t with status }).ticket j = some u →
      ∃ u₀, s.ticket j = some u₀ ∧ u₀.name = u.name ∧ u₀.fence = u.fence := by
    intro j u hj
    rcases hold j u hj with ⟨rfl, rfl⟩ | ⟨-, hj⟩
    · exact ⟨t, hi, rfl, rfl⟩
    · exact ⟨u, hj, rfl, rfl⟩
  refine ⟨fun j u hj => ?_, fun j k u v hj hk hn hf => ?_, fun j k u v hj hk hn hu hv he => ?_⟩
  · rcases hold j u hj with ⟨rfl, rfl⟩ | ⟨-, hj⟩
    · obtain ⟨c, hcell, hexp, hfence, -, -⟩ := h.issued j t hi
      refine ⟨c, hcell, hexp, hfence, fun ha => absurd ha hs, fun hu => ?_⟩
      obtain ⟨⟨x, hx, hlt⟩, -⟩ := hused hu
      rw [hcell, Option.some.injEq] at hx
      subst hx
      exact hlt
    · obtain ⟨c, hc⟩ := h.issued j u hj
      exact ⟨c, hc.cell, hc.expected, hc.fence, hc.active, hc.used⟩
  · obtain ⟨u₀, hu₀, hun, huf⟩ := hbefore j u hj
    obtain ⟨v₀, hv₀, hvn, hvf⟩ := hbefore k v hk
    exact h.distinct j k u₀ v₀ hu₀ hv₀ (hun.trans (hn.trans hvn.symm))
      (huf.trans (hf.trans hvf.symm))
  · rcases hold j u hj with ⟨rfl, rfl⟩ | ⟨hji, hj'⟩ <;>
      rcases hold k v hk with ⟨rfl, rfl⟩ | ⟨hki, hk'⟩
    · rfl
    · exact absurd he.symm ((hused hu).2 k v hk' hn.symm hv)
    · exact absurd he ((hused hv).2 j u hj' hn hu)
    · exact h.once j k u v hj' hk' hn hu hv he

/-- The new ticket has the highest fence of its register, and the others are closed. -/
theorem issue (h : Fenced s) (hk : s.cell k = some c) (hi : s.ticket i = none) :
    Fenced (s.issue k c i) := by
  have hticket : ∀ j u, (s.issue k c i).ticket j = some u → j = i ∧
      u = ⟨k, c.generation, c.fence + 1, .active⟩ ∨ j ≠ i ∧ ∃ u₀, s.ticket j = some u₀ ∧
      u = u₀.closedFor k := by
    intro j u hj
    by_cases he : j = i
    · subst he
      rw [show (s.issue k c j).ticket j = _ from Function.update_self .., Option.some.injEq] at hj
      exact Or.inl ⟨rfl, hj.symm⟩
    · have hmap : (s.ticket j).map (Ticket.closedFor k) = some u :=
        (Function.update_of_ne he ..).symm.trans hj
      obtain ⟨u₀, hu₀, rfl⟩ := Option.map_eq_some_iff.mp hmap
      exact Or.inr ⟨he, u₀, hu₀, rfl⟩
  have hclosed : ∀ u : Ticket K, (u.closedFor k).name = u.name ∧ (u.closedFor k).fence = u.fence ∧
      (u.closedFor k).expected = u.expected ∧ ((u.closedFor k).status = .used → u.status = .used) ∧
      ((u.closedFor k).status = .active → u.status = .active ∧ u.name ≠ k) := by
    intro u
    unfold Ticket.closedFor
    split_ifs with hu
    · exact ⟨rfl, rfl, rfl, fun h => by simp at h, fun h => by simp at h⟩
    · exact ⟨rfl, rfl, rfl, id, fun ha => ⟨ha, fun hn => hu ⟨hn, ha⟩⟩⟩
  -- Fences of the register were at most that of its cell.
  have hbelow : ∀ j u, s.ticket j = some u → u.name = k → u.fence ≤ c.fence := by
    intro j u hj hn
    obtain ⟨x, hx⟩ := h.issued j u hj
    have := hx.cell
    rw [hn, hk, Option.some.injEq] at this
    subst this
    exact hx.fence
  refine ⟨fun j u hj => ?_, fun j m u v hj hm hn hf => ?_, fun j m u v hj hm hn hu hv he => ?_⟩
  · rcases hticket j u hj with ⟨rfl, rfl⟩ | ⟨-, u₀, hu₀, rfl⟩
    · exact ⟨{ c with fence := c.fence + 1 }, Function.update_self .., Nat.le_refl _, Nat.le_refl _,
        fun _ => rfl,
        fun hu => by simp at hu⟩
    · obtain ⟨x, hcell, hexp, hfence, hact, hused⟩ := h.issued j u₀ hu₀
      obtain ⟨hn, hf, he, hu, ha⟩ := hclosed u₀
      by_cases hkey : u₀.name = k
      · rw [hkey, hk, Option.some.injEq] at hcell
        subst hcell
        refine ⟨{ c with fence := c.fence + 1 }, ?_, ?_, ?_, fun hact' => absurd hkey (ha hact').2,
          fun hus => ?_⟩
        · rw [hn, hkey]
          exact Function.update_self ..
        · rw [he]
          exact hexp
        · rw [hf]
          exact Nat.le_succ_of_le hfence
        · rw [he]
          exact hused (hu hus)
      · refine ⟨x, ?_, by rw [he]; exact hexp, by rw [hf]; exact hfence, fun hact' => ?_,
          fun hus => ?_⟩
        · rw [hn]
          exact (Function.update_of_ne hkey ..).trans hcell
        · rw [hf]
          exact hact (ha hact').1
        · rw [he]
          exact hused (hu hus)
  · rcases hticket j u hj with ⟨rfl, rfl⟩ | ⟨hji, u₀, hu₀, rfl⟩ <;>
      rcases hticket m v hm with ⟨rfl, rfl⟩ | ⟨hmi, v₀, hv₀, rfl⟩
    · rfl
    · rw [(hclosed v₀).1] at hn
      rw [(hclosed v₀).2.1] at hf
      have := hbelow m v₀ hv₀ hn.symm
      simp only at hf
      omega
    · rw [(hclosed u₀).1] at hn
      rw [(hclosed u₀).2.1] at hf
      have := hbelow j u₀ hu₀ hn
      simp only at hf
      omega
    · rw [(hclosed u₀).1, (hclosed v₀).1] at hn
      rw [(hclosed u₀).2.1, (hclosed v₀).2.1] at hf
      exact h.distinct j m u₀ v₀ hu₀ hv₀ hn hf
  · rcases hticket j u hj with ⟨rfl, rfl⟩ | ⟨hji, u₀, hu₀, rfl⟩
    · simp at hu
    · rcases hticket m v hm with ⟨rfl, rfl⟩ | ⟨hmi, v₀, hv₀, rfl⟩
      · simp at hv
      · obtain ⟨hun, -, hue, huu, -⟩ := hclosed u₀
        obtain ⟨hvn, -, hve, hvu, -⟩ := hclosed v₀
        exact h.once j m u₀ v₀ hu₀ hv₀ (hun.symm.trans (hn.trans hvn)) (huu hu) (hvu hv)
          (hue.symm.trans (he.trans hve))

/-- A ticket that is used writes the register at its own generation, which no ticket used
before can have. -/
theorem use (h : Fenced s) (hi : s.ticket i = some t)
    (hk : s.cell t.name = some c) (hg : c.generation = t.expected) (v : V) :
    Fenced ((s.write t.name { c with value := v, generation := c.generation + 1 }).stamp i
      { t with status := .used }) := by
  have hwritten : Fenced (s.write t.name { c with value := v, generation := c.generation + 1 }) :=
    h.write hk v
  refine hwritten.stamp hi (by simp) fun _ =>
    ⟨⟨_, Function.update_self .., ?_⟩, fun j u hj hn hu he => ?_⟩
  · show t.expected < c.generation + 1
    omega
  · obtain ⟨x, hx⟩ := h.issued j u hj
    have hcell := hx.cell
    rw [hn, hk, Option.some.injEq] at hcell
    subst hcell
    have := hx.used hu
    omega

end Fenced

/-- **Every step keeps the fences.** -/
theorem Step.fenced [DecidableEq K] [DecidableEq I] {s s' : State K I V} {label : Label K I}
    (h : Fenced s) (hs : Step s label s') : Fenced s' := by
  cases hs with
  | stay => exact h
  | create k v hk => exact h.create hk v
  | write k c v hk => exact h.write hk v
  | issue k c i hk hi => exact h.issue hk hi
  | close i t hi => exact h.stamp hi (by simp) fun hu => by simp at hu
  | use i t c v hi hk hg => exact h.use hi hk hg v

end Hf2l.Lib.Register
