import Hf2l.Exchange.Ledger.Sound
import Hf2l.Lib.Register

/-!
# `Hf2l.Exchange.Registry.Registers`: references as fenced registers

A reference is a register of record identifiers and an acquisition is a ticket for one. The
lookups of the two tables are the abstraction function (`Registry.registers`), and `Swap` lists
what a transaction can do to the tables. Each entry of the list is a step of the registers
(`Swap.step`), so that the fences of the registers are those of the rows.

A lease is not part of a register: no clock has a say in what is proved here.
-/

set_option autoImplicit false

namespace Hf2l.Exchange

open Lib Lib.Register

def Reference.cell (r : Reference) : Cell Id := ⟨r.recordId, r.generation, r.fence⟩

def CoordinationState.status : CoordinationState → Status
  | .active => .active
  | .completed => .used
  | .expired => .closed
  | .abandoned => .closed

def Coordination.ticket (c : Coordination) : Ticket String :=
  ⟨c.referenceName, c.expectedGeneration, c.fence, c.state.status⟩

/-- The registers that the two tables hold. -/
def Registry.registers (g : Registry) : State String Id Id where
  cell name := (Table.get Reference.name name g.references).map Reference.cell
  ticket id := (Table.get Coordination.id id g.coordinations).map Coordination.ticket

theorem Db.registers_cell (db : Db) (name : String) :
    db.registry.registers.cell name = (db.reference name).map Reference.cell := rfl

theorem Db.registers_ticket (db : Db) (id : Id) :
    db.registry.registers.ticket id = (db.coordination id).map Coordination.ticket := rfl

/-- What a transaction with this label does to references and acquisitions. -/
inductive Swap (db db' : Db) : Label String Id → Prop
  | stay (h : db'.registry = db.registry) : Swap db db' .stay
  | create (name : String) (target : Id) (hn : db.reference name = none)
    (h : db'.registry = db.registry.createReference name target) : Swap db db' (.write name)
  | move (reference : Reference) (target : Id) (hn : db.reference reference.name = some reference)
    (h : db'.registry = db.registry.moveReference reference target) :
    Swap db db' (.write reference.name)
  | grant (reference : Reference) (holder : Id) (leaseUntil createdAt : Time) (inputs : List Id)
    (hn : db.reference reference.name = some reference) (hd : db.ledger.minted < db'.ledger.minted)
    (h : db'.registry = db.registry.grant reference (db.ledger.fresh 0) holder leaseUntil createdAt
      inputs) :
    Swap db db' (.issue reference.name (db.ledger.fresh 0))
  | renew (c : Coordination) (t : Time) (hc : db.coordination c.id = some c)
    (h : db'.registry = db.registry.putCoordination { c with leaseUntil := t }) : Swap db db' .stay
  | abandon (c : Coordination) (hc : db.coordination c.id = some c)
    (h : db'.registry = db.registry.putCoordination { c with state := .abandoned }) :
    Swap db db' (.close c.id)
  | complete (c : Coordination) (reference : Reference) (target : Id)
    (hc : db.coordination c.id = some c)
    (hn : db.reference c.referenceName = some reference)
    (hg : reference.generation = c.expectedGeneration)
    (h : db'.registry = (db.registry.moveReference reference target).putCoordination
      { c with state := .completed, resultRecordId := some target }) : Swap db db' (.use c.id)

/-- The keys of the two tables. -/
structure Db.Indexed (db : Db) : Prop where
  references : Table.Keyed Reference.name db.registry.references
  coordinations : Table.Keyed Coordination.id db.registry.coordinations
  minted : ∀ c ∈ db.registry.coordinations, db.ledger.Minted c.id

theorem Db.indexed_iff (db : Db) : db.Indexed ↔ Table.Keyed Reference.name db.registry.references ∧
    Table.Keyed Coordination.id db.registry.coordinations ∧
    ∀ c ∈ db.registry.coordinations, db.ledger.Minted c.id :=
  ⟨fun h => ⟨h.references, h.coordinations, h.minted⟩, fun h => ⟨h.1, h.2.1, h.2.2⟩⟩

namespace Registry

variable {g : Registry}

/-! ### The operations as operations of the registers -/

theorem createReference_registers {name : String}
    (hn : Table.get Reference.name name g.references = none) (target : Id) :
    (g.createReference name target).registers = g.registers.write name ⟨target, 1, 0⟩ := by
  unfold registers State.write
  congr 1
  funext k
  show (Table.get Reference.name k (g.references ++ [⟨name, target, 1, 0⟩])).map Reference.cell = _
  rw [Table.get_concat (Table.get_none hn), Function.update_apply]
  by_cases h : k = name
  · rw [if_pos h, if_pos h]
    rfl
  · rw [if_neg h, if_neg h]

variable {reference : Reference}

/-- A write of one reference. -/
theorem put_cell (hk : Table.Keyed Reference.name g.references) {reference' : Reference}
    (hr : reference ∈ g.references) (he : reference'.name = reference.name) :
    (fun name => (Table.get Reference.name name
      (Table.put Reference.name reference' g.references)).map
      Reference.cell) = Function.update g.registers.cell reference.name (some reference'.cell) := by
  funext k
  rw [Table.get_put hk hr reference' he, Function.update_apply, he]
  by_cases h : k = reference.name
  · rw [if_pos h, if_pos h]
    rfl
  · rw [if_neg h, if_neg h]
    rfl

/-- A write of one acquisition. -/
theorem putCoordination_registers (hk : Table.Keyed Coordination.id g.coordinations)
    {c : Coordination} (hc : c ∈ g.coordinations) (c' : Coordination) (he : c'.id = c.id) :
    (g.putCoordination c').registers = g.registers.stamp c.id c'.ticket := by
  unfold registers State.stamp
  congr 1
  funext k
  show (Table.get Coordination.id k (Table.put Coordination.id c' g.coordinations)).map
    Coordination.ticket = _
  rw [Table.get_put hk hc c' he, Function.update_apply, he]
  by_cases h : k = c.id
  · rw [if_pos h, if_pos h]
    rfl
  · rw [if_neg h, if_neg h]

theorem moveReference_registers (hk : Table.Keyed Reference.name g.references)
    (hr : reference ∈ g.references) (target : Id) :
    (g.moveReference reference target).registers =
      g.registers.write reference.name ⟨target, reference.generation + 1, reference.fence⟩ := by
  unfold registers State.write
  congr 1
  exact put_cell hk hr rfl

section
variable (name : String) (c : Coordination)

/-- The acquisition as `grant` leaves it, if it was there before. -/
def expireFor : Coordination :=
  if c.referenceName = name ∧ c.state = .active then { c with state := .expired } else c

theorem expireFor_id : (expireFor name c).id = c.id := by
  unfold expireFor
  split_ifs <;> rfl

/-- The new state closes exactly the tickets that are active. -/
theorem expireFor_ticket : (expireFor name c).ticket = c.ticket.closedFor name := by
  have hactive : c.state = .active ↔
      c.state.status = .active := by cases c.state <;> simp [CoordinationState.status]
  unfold expireFor Ticket.closedFor
  by_cases h : c.referenceName = name ∧ c.state = .active
  · rw [if_pos h, if_pos ⟨h.1, hactive.mp h.2⟩]
    rfl
  · rw [if_neg h, if_neg fun h' => h ⟨h'.1, hactive.mpr h'.2⟩]

end

theorem grant_registers (hk : Table.Keyed Reference.name g.references)
    (hr : reference ∈ g.references) {id : Id} (hid : ∀ c ∈ g.coordinations, c.id ≠ id) (holder : Id)
    (leaseUntil createdAt : Time) (inputs : List Id) :
    (g.grant reference id holder leaseUntil createdAt inputs).registers =
      g.registers.issue reference.name reference.cell id := by
  unfold registers State.issue State.stamp State.write
  congr 1
  · exact put_cell hk hr rfl
  · funext k
    show (Table.get Coordination.id k
      (g.coordinations.map (expireFor reference.name) ++ [_])).map _ = _
    have hne : ∀ c ∈ g.coordinations.map (expireFor reference.name), c.id ≠ id := by
      intro c hc
      obtain ⟨c₀, hc₀, rfl⟩ := List.mem_map.mp hc
      rw [expireFor_id]
      exact hid c₀ hc₀
    rw [Table.get_concat hne, Table.get_map (expireFor_id _), Function.update_apply]
    by_cases h : k = id
    · rw [if_pos h, if_pos h]
      rfl
    · rw [if_neg h, if_neg h]
      show _ = ((Table.get Coordination.id k g.coordinations).map Coordination.ticket).map _
      rw [Option.map_map, Option.map_map]
      exact congrArg (Option.map · _) (funext (expireFor_ticket reference.name))

end Registry

namespace Swap

variable {db db' : Db} {label : Label String Id}

/-- **What a transaction does to the tables is a step of the registers.** -/
theorem step (hi : db.Indexed) (h : Swap db db' label) :
    Step db.registry.registers label db'.registry.registers := by
  cases h with
  | stay h =>
    rw [h]
    exact .stay
  | create name target hn h =>
    rw [h, Registry.createReference_registers hn]
    exact .create name target (by rw [Db.registers_cell, hn]; rfl)
  | move reference target hn h =>
    obtain ⟨hr, -⟩ := Table.get_mem hn
    rw [h, Registry.moveReference_registers hi.references hr]
    exact .write reference.name reference.cell target (by rw [Db.registers_cell, hn]; rfl)
  | grant reference holder leaseUntil createdAt inputs hn _ h =>
    obtain ⟨hr, -⟩ := Table.get_mem hn
    have hfresh : ∀ c ∈ db.registry.coordinations, c.id ≠ db.ledger.fresh 0 :=
      fun c hc => (hi.minted c hc).ne_fresh 0
    rw [h, Registry.grant_registers hi.references hr hfresh]
    refine .issue reference.name reference.cell _ (by rw [Db.registers_cell, hn]; rfl) ?_
    -- The identifier was not drawn before, so no acquisition has it.
    rw [Db.registers_ticket, Option.map_eq_none_iff]
    cases hget : db.coordination (db.ledger.fresh 0) with
    | none => rfl
    | some c =>
      obtain ⟨hc, he⟩ := Table.get_mem hget
      exact absurd he (hfresh c hc)
  | renew c t hc h =>
    obtain ⟨hmem, -⟩ := Table.get_mem hc
    have hsame : db.registry.registers.stamp c.id c.ticket = db.registry.registers := by
      unfold State.stamp
      have hticket : some c.ticket = db.registry.registers.ticket c.id := by
        rw [Db.registers_ticket, hc]
        rfl
      rw [hticket, Function.update_eq_self]
    rw [h, Registry.putCoordination_registers hi.coordinations hmem { c with leaseUntil := t } rfl]
    show Step _ _ (db.registry.registers.stamp c.id c.ticket)
    rw [hsame]
    exact .stay
  | abandon c hc h =>
    obtain ⟨hmem, -⟩ := Table.get_mem hc
    rw [h, Registry.putCoordination_registers hi.coordinations hmem
      { c with state := .abandoned } rfl]
    exact .close c.id c.ticket (by rw [Db.registers_ticket, hc]; rfl)
  | complete c reference target hc hn hg h =>
    obtain ⟨hmem, -⟩ := Table.get_mem hc
    obtain ⟨hr, hname⟩ := Table.get_mem hn
    have hput : ((db.registry.moveReference reference target).putCoordination
        { c with state := .completed, resultRecordId := some target }).registers =
        (db.registry.registers.write reference.name ⟨target, reference.generation + 1,
          reference.fence⟩).stamp c.id
          { c.ticket with status := .used } := by
      rw [Registry.putCoordination_registers (g := db.registry.moveReference reference target)
        hi.coordinations
        hmem { c with state := .completed, resultRecordId := some target } rfl,
        Registry.moveReference_registers hi.references hr]
      rfl
    rw [h, hput, hname]
    exact .use c.id c.ticket reference.cell target (by rw [Db.registers_ticket, hc]; rfl)
      (by rw [Db.registers_cell]; exact congrArg (Option.map Reference.cell) hn) hg

/-- The keys stay unique, and new acquisitions have drawn identifiers. -/
theorem indexed (hi : db.Indexed) (h : Swap db db' label)
    (hle : db.ledger.minted ≤ db'.ledger.minted) :
    db'.Indexed := by
  have hput : ∀ {c c' : Coordination}, c ∈ db.registry.coordinations → c'.id = c.id →
      ∀ x ∈ Table.put Coordination.id c' db.registry.coordinations, db'.ledger.Minted x.id := by
    intro c c' hc he x hx
    rcases Table.of_mem_put hx with ⟨hx, -⟩ | rfl
    · exact (hi.minted x hx).mono hle
    · exact he ▸ (hi.minted c hc).mono hle
  have hold : ∀ c ∈ db.registry.coordinations, db'.ledger.Minted c.id :=
    fun c hc => (hi.minted c hc).mono hle
  cases h with
  | stay h =>
    rw [Db.indexed_iff, h]
    exact ⟨hi.references, hi.coordinations, hold⟩
  | create name target hn h =>
    rw [Db.indexed_iff, h]
    exact ⟨hi.references.concat (Table.get_none hn), hi.coordinations, hold⟩
  | move reference target _ h =>
    rw [Db.indexed_iff, h]
    exact ⟨hi.references.put _, hi.coordinations, hold⟩
  | grant reference holder leaseUntil createdAt inputs hn hd h =>
    rw [Db.indexed_iff, h]
    have hmap : Table.Keyed Coordination.id
        (db.registry.coordinations.map (Registry.expireFor reference.name)) :=
      hi.coordinations.map fun c _ => Registry.expireFor_id _ c
    have hids : ∀ c ∈ db.registry.coordinations.map (Registry.expireFor reference.name),
        db.ledger.Minted c.id := by
      intro c hc
      obtain ⟨c₀, hc₀, rfl⟩ := List.mem_map.mp hc
      rw [Registry.expireFor_id]
      exact hi.minted c₀ hc₀
    refine ⟨hi.references.put _, hmap.concat fun c hc => (hids c hc).ne_fresh 0, fun c hc => ?_⟩
    rcases Table.mem_concat.mp hc with hc | rfl
    · exact (hids c hc).mono hle
    · exact Ledger.minted_fresh hd
  | renew c t hc h | abandon c hc h =>
    rw [Db.indexed_iff, h]
    exact ⟨hi.references, hi.coordinations.put _, hput (Table.get_mem hc).1 rfl⟩
  | complete c reference target hc _ _ h =>
    rw [Db.indexed_iff, h]
    exact ⟨hi.references.put _, hi.coordinations.put _, hput (Table.get_mem hc).1 rfl⟩

end Swap

end Hf2l.Exchange
