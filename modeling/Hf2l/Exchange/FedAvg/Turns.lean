import Hf2l.Exchange.FedAvg.History

/-!
# `Hf2l.Exchange.FedAvg.Turns`: what transactions do to a history

The commands of a space with the profile `fedavg.v1`, one by one. The profile accepts a first
target of `main` from `put_reference` and a next one from a completion, and nothing else. Every
other command, and every transaction of a transfer, leaves `main` where it is.
-/

set_option autoImplicit false

namespace Hf2l.Exchange.FedAvg

open Lib
open Service

/-! ### Bases -/

/-- The profile of the space, and what it makes of metadata. -/
structure Profiled (db : Db) : Prop where
  profile : db.ledger.space.profile = "fedavg.v1"
  based : Based db.ledger.records

theorem Profiled.of_ledger {db : Db} {l : Ledger} (hl : db.ledger = l)
    (hp : l.space.profile = "fedavg.v1") (hb : Based l.records) : Profiled db := by
  subst hl
  exact ⟨hp, hb⟩

theorem Based.put {records : List Record} (h : Based records) (r : Record)
    (hr : r.baseRecordId = recordBaseId r.kind r.metadata) :
    Based (Table.put Record.id r records) := by
  intro x hx
  rcases Table.of_mem_put hx with ⟨hx, -⟩ | rfl
  · exact h x hx
  · exact hr

theorem Based.of_target {records : List Record} (h : Based records) {r : Record} (hr : r ∈ records)
    (hk : r.kind = "model.global") : r.baseRecordId = baseText r.metadata := by
  rw [h r hr, recordBaseId, if_pos (Or.inr hk)]

section Commands

variable {d : Dialect} {db db' : Db} {k : Service.Deed}

/-- The profile that accepted a record is this one. -/
theorem accepted_base (hd : d.profiles "fedavg.v1" = .ok profile) (h : Profiled db) {kind : String}
    {metadata bindings : Fields} {base : Option Id}
    (ha : Accepted d db.ledger kind metadata bindings base) :
    base = recordBaseId kind metadata := by
  obtain ⟨q, hq, -, rfl⟩ := ha
  rw [h.profile, hd, Except.ok.injEq] at hq
  rw [← hq]
  rfl

theorem Profiled.committed (hd : d.profiles "fedavg.v1" = .ok FedAvg.profile) (h : Profiled db)
    (hc : Committed d db k db') (hret : db'.retired = false) : Profiled db' := by
  cases hc with
  | idle _ hs | manage m _ _ hs | createReference name r _ _ _ hs
  | moveReference reference r _ _ _ hs
  | acquire reference holder leaseUntil createdAt inputs _ _ hs | renew c reference t _ hs
  | abandon c reference _ hs | complete c reference r _ _ _ _ hs =>
    exact .of_ledger hs.ledger h.profile h.based
  | limits s hr hs =>
    exact .of_ledger hs.ledger (hr.profile.trans h.profile) h.based
  | register kind roles visibility hs =>
    have hl : db'.ledger = db.ledger.draw 1 := by
      rw [hs.ledger]
      unfold addPolicy
      split_ifs <;> rfl
    exact .of_ledger hl h.profile h.based
  | policy policy policy' _ _ _ hs =>
    refine .of_ledger hs.ledger h.profile fun x hx => ?_
    obtain ⟨r, hr, rfl⟩ := List.mem_map.mp hx
    split_ifs <;> exact h.based r hr
  | create r bs policy _ _ _ ha hs =>
    refine .of_ledger hs.ledger h.profile fun x hx => ?_
    rcases Table.mem_concat.mp hx with hx | rfl
    · exact h.based x hx
    · exact accepted_base hd h ha
  | patch r metadata size base _ _ ha _ _ hs =>
    exact .of_ledger hs.ledger h.profile
      (h.based.put (amended r metadata size base) (accepted_base hd h ha))
  | publish r policy t hr _ _ _ _ hs =>
    exact .of_ledger hs.ledger h.profile (h.based.put (publishedAs r policy t) (h.based r hr))
  | withdraw r now hr _ _ hs =>
    have hrec := (congrArg Ledger.records hs.ledger).trans
      (ReleaseRule.stop_one_records d.rule stoppedState now db.ledger r)
    have hspace : (d.rule.stop stoppedState now db.ledger [r]).space.profile =
        db.ledger.space.profile := by
      unfold ReleaseRule.stop
      rw [List.foldl_cons, List.foldl_nil]
      split_ifs
      · rfl
      · rw [ReleaseRule.release_counters]
    refine ⟨by rw [hs.ledger]; exact hspace.trans h.profile, ?_⟩
    rw [hrec]
    split_ifs
    · exact h.based
    · exact h.based.put (r.stopped (stoppedState r)) (h.based r hr)
  | purge r _ _ _ _ _ hs =>
    exact .of_ledger hs.ledger h.profile fun x hx => h.based x (List.mem_filter.mp hx).1
  | retire m now hm hs =>
    unfold Db.retired at hret
    rw [hs.managed] at hret
    exact absurd hm (by simpa using hret)

end Commands

theorem Profiled.transferred {clock : Clock} {ids : List Nat} {db db' : Db} (h : Profiled db)
    (ht : Transferred clock db ids db') : Profiled db' := by
  have hbeside : ∀ l : Ledger, db.ledger.Beside l → l.space.profile = "fedavg.v1" ∧
      Based l.records := by
    intro l hl
    refine ⟨?_, ?_⟩
    · rw [hl.space]
      exact h.profile
    · cases hl.drafted with
      | none hr => exact hr ▸ h.based
      | one r r' hr _ hm hrec =>
        rw [hrec]
        refine h.based.put r' ?_
        cases hm with
        | extend t | stop state _ => exact h.based r hr
  cases ht with
  | wrote l hl he =>
    exact .of_ledger he.same.ledger (hbeside l hl).1 (hbeside l hl).2
  | pruned keep l hl => exact ⟨(hbeside l hl).1, (hbeside l hl).2⟩
  | prunedEvents ids => exact ⟨h.profile, h.based⟩

/-! ### Turns -/

section Turns

variable {d : Dialect} {db db' : Db} {t : Trace} {k : Service.Deed}

/-- `main` is as it was. -/
theorem Turn.of_reference (h : db'.reference "main" = db.reference "main") : Turn db db' t := by
  refine .stay ?_ ?_
  · unfold Db.generation
    rw [h]
  · unfold Db.target
    rw [h]

variable {reference : Reference} {r : Record}

/-- The references after one is written. -/
theorem reference_put (hx : db.Indexed) (hr : reference ∈ db.registry.references)
    (reference' : Reference) (he : reference'.name = reference.name)
    (h : db'.registry.references = Table.put Reference.name reference' db.registry.references)
    (k : String) :
    db'.reference k = if k = reference.name then some reference' else db.reference k := by
  unfold Db.reference
  rw [h, Table.get_put hx.references hr reference' he, he]

theorem reference_moved (hx : db.Indexed) (hr : reference ∈ db.registry.references) {target : Id}
    (h : db'.registry.references = (db.registry.moveReference reference target).references)
    (k : String) :
    db'.reference k = if k = reference.name then
        some { reference with recordId := target, generation := reference.generation + 1 }
      else db.reference k :=
  reference_put hx hr
    { reference with recordId := target, generation := reference.generation + 1 } rfl h k

theorem Turn.createReference (hd : d.profiles "fedavg.v1" = .ok profile) (hp : Profiled db)
    {name : String} (hn : db.reference name = none) (ht : Target db.ledger r)
    (hv : ∃ q, d.profiles db.ledger.space.profile = .ok q ∧
      q.validateReference name r.descriptor [] none = .ok ())
    (hledger : db'.ledger = db.ledger)
    (hreg : db'.registry = db.registry.createReference name r.id) :
    Turn db db' t := by
  obtain ⟨q, hq, hval⟩ := hv
  rw [hp.profile, hd, Except.ok.injEq] at hq
  subst hq
  have hget : ∀ k, db'.reference k = if k = name then
      some ⟨name, r.id, 1, 0⟩ else db.reference k := by
    intro k
    unfold Db.reference
    rw [hreg]
    exact Table.get_concat (r := (⟨name, r.id, 1, 0⟩ : Reference)) (Table.get_none hn) k
  by_cases hmain : name = "main"
  · subst hmain
    have hinit := initial_of_validateReference hval
    have hbase : r.baseRecordId = none := by
      rw [hp.based.of_target ht.mem hinit.kind, baseText, hinit.base]
      rfl
    refine .first r.id ?_ ?_ ?_ ⟨r, hledger ▸ ht.mem, rfl, ht.published, hbase, hinit⟩
    · unfold Db.generation
      rw [hget, if_pos rfl, hn]
      rfl
    · unfold Db.target
      rw [hget, if_pos rfl]
      rfl
    · unfold Db.target
      rw [hn]
      rfl
  · refine .of_reference ?_
    rw [hget, if_neg (Ne.symm hmain)]

theorem Turn.moveReference (hd : d.profiles "fedavg.v1" = .ok profile) (hp : Profiled db)
    (hx : db.Indexed) (hn : db.reference reference.name = some reference)
    (hv : ∃ q, d.profiles db.ledger.space.profile = .ok q ∧
      q.validateReference reference.name r.descriptor [] (some reference.recordId) = .ok ())
    (hreg : db'.registry = db.registry.moveReference reference r.id) : Turn db db' t := by
  obtain ⟨q, hq, hval⟩ := hv
  rw [hp.profile, hd, Except.ok.injEq] at hq
  subst hq
  refine .of_reference ?_
  rw [reference_moved hx (reference_name hn).1 (congrArg Registry.references hreg),
    if_neg fun hmain => ?_]
  rw [← hmain] at hval
  exact not_validateReference_nil _ _ hval

/-- The fence of a reference does not show. -/
theorem Turn.grant (hx : db.Indexed) (hn : db.reference reference.name = some reference)
    (h : db'.registry.references = Table.put Reference.name
      { reference with fence := reference.fence + 1 } db.registry.references) :
    Turn db db' t := by
  have hget := reference_put hx (reference_name hn).1
      { reference with fence := reference.fence + 1 } rfl h
  by_cases hmain : reference.name = "main"
  · rw [hmain] at hn
    refine .stay ?_ ?_
    · unfold Db.generation
      rw [hget, if_pos hmain.symm, hn]
      rfl
    · unfold Db.target
      rw [hget, if_pos hmain.symm, hn]
      rfl
  · exact .of_reference (by rw [hget, if_neg (Ne.symm hmain)])

theorem History.complete (hd : d.profiles "fedavg.v1" = .ok profile) (hp : Profiled db)
    (hx : db.Indexed) (h : History db t) {c : Coordination} (hc : Held db c reference)
    (hg : reference.generation = c.expectedGeneration) (ht : Target db.ledger r)
    (hv : ∃ q member p used, d.profiles db.ledger.space.profile = .ok q ∧
      usedInputs db q member p c r = .ok used ∧
      q.validateReference c.referenceName r.descriptor used (some reference.recordId) = .ok ())
    (hledger : db'.ledger = db.ledger)
    (hreg : db'.registry = (db.registry.moveReference reference r.id).putCoordination
      (completed c r.id)) :
    Turn db db' t := by
  obtain ⟨q, member, p, used, hq, hused, hval⟩ := hv
  rw [hp.profile, hd, Except.ok.injEq] at hq
  subst hq
  obtain ⟨hr, hname⟩ := reference_name hc.found
  have hrefs : db'.registry.references = (db.registry.moveReference reference r.id).references := by
    rw [hreg]
    rfl
  by_cases hmain : c.referenceName = "main"
  · have hfound : db.reference "main" = some reference := hmain ▸ hc.found
    have hget : db'.reference "main" =
        some { reference with recordId := r.id, generation := reference.generation + 1 } := by
      rw [reference_moved hx hr hrefs, if_pos (hmain.symm.trans hname.symm)]
    have hgen : db.generation "main" = reference.generation := by
      unfold Db.generation
      rw [hfound]
      rfl
    have htarget : db.target "main" = some reference.recordId := by
      unfold Db.target
      rw [hfound]
      rfl
    obtain ⟨inputs, hagg, hsub⟩ := aggregate_of_complete hmain hused hval
    -- The acquisition was granted at this generation, so it selected updates on this target.
    obtain ⟨before, base, hgrant, hbefore, hsel, -, hpin⟩ := h.granted c hc.mem hmain
    have hbase : base = reference.recordId :=
      Option.some.inj ((hpin (hg.symm.trans hgen.symm)).symm.trans htarget)
    subst hbase
    have hcoord : db'.registry.coordinations = Table.put Coordination.id
        (completed c r.id) db.registry.coordinations := by
      rw [hreg]
      rfl
    have hround : Round db' (t.extend db db') reference.recordId r.id inputs (completed c r.id) :=
      { mem := by
          rw [hcoord]
          exact Table.mem_put_self hc.mem rfl
        main := hmain
        completed := rfl
        result := rfl
        frozen := by
          have hins : db'.inputIds c.id = db.inputIds c.id := by
            unfold Db.inputIds
            rw [hreg]
            rfl
          show inputs ⊆ db'.inputIds c.id
          rw [hins]
          exact hsub
        granted := ⟨before, Trace.grants_extend hgrant, hbefore, hsel.of_subset hsub⟩ }
    refine .next reference.recordId r.id ?_ ?_ htarget
      ⟨r, hledger ▸ ht.mem, rfl, ht.published, ?_, inputs, hagg, completed c r.id, hround⟩
    · rw [hgen]
      unfold Db.generation
      rw [hget]
      rfl
    · unfold Db.target
      rw [hget]
      rfl
    · rw [hp.based.of_target ht.mem hagg.kind, hagg.base]
  · refine .of_reference ?_
    rw [reference_moved hx hr hrefs, if_neg fun he => hmain (hname.symm.trans he.symm)]

/-- **A command extends the history, or retires the space.** -/
theorem History.committed (hd : d.profiles "fedavg.v1" = .ok profile) (hp : Profiled db)
    (hi : db.Intact) (hx : db.Indexed) (h : History db t) (hc : Committed d db k db')
    (hret : db'.retired = false) : History db' (t.extend db db') := by
  have hkept : Kept db db' t.targets :=
    fun r hr hs hid => hc.unaltered hi hret hr hs (h.not_free hid)
  have hsame : db'.registry = db.registry → History db' (t.extend db db') := fun he =>
    h.extend hkept (.of_eq (by rw [he]) (by rw [he]))
      (.of_reference (by unfold Db.reference; rw [he]))
  -- The row of an acquisition that holds its reference is written, and no reference.
  have hput : ∀ (c c' : Coordination) (reference : Reference), Held db c reference → c'.id = c.id →
      c'.referenceName = c.referenceName → c'.expectedGeneration = c.expectedGeneration →
      db'.registry = db.registry.putCoordination c' → History db' (t.extend db db') :=
    fun c c' reference hc hid hname hgen he =>
      h.extend hkept
        (.put hx c' hc.mem hc.active hid hname hgen (by rw [he]; rfl) (by rw [he]; rfl))
        (.of_reference (by unfold Db.reference; rw [he]; rfl))
  cases hc with
  | idle _ hs | manage m _ _ hs | limits s _ hs | policy policy policy' _ _ _ hs
  | create r bs policy _ _ _ _ hs | patch r metadata size base _ _ _ _ _ hs
  | publish r policy t _ _ _ _ _ hs | withdraw r now _ _ _ hs | purge r _ _ _ _ _ hs
  | retire m now _ hs =>
    exact hsame hs.registry
  | register kind roles visibility hs =>
    refine hsame (hs.registry.trans ?_)
    unfold addPolicy
    split_ifs <;> rfl
  | createReference name r hn ht hv hs =>
    refine h.extend hkept (.of_eq ?_ ?_) (.createReference hd hp hn ht hv hs.ledger hs.registry)
    · rw [hs.registry]
      rfl
    · rw [hs.registry]
      rfl
  | moveReference reference r hn ht hv hs =>
    refine h.extend hkept (.of_eq ?_ ?_) (.moveReference hd hp hx hn hv hs.registry)
    · rw [hs.registry]
      rfl
    · rw [hs.registry]
      rfl
  | acquire reference holder leaseUntil createdAt inputs hn hf hs =>
    obtain ⟨q, asked, hq, -, hsel⟩ := hf.selected
    rw [hp.profile, hd, Except.ok.injEq] at hq
    subst hq
    exact h.extend hkept
      (.grant hx h.inputs hn (fun hmain => selected_of_selectIds hi.keyed hmain hsel) hs.registry)
      (.grant hx hn (congrArg Registry.references hs.registry))
  | renew c reference u hc hs =>
    exact hput c { c with leaseUntil := u } reference hc rfl rfl rfl hs.registry
  | abandon c reference hc hs =>
    exact hput c { c with state := .abandoned } reference hc rfl rfl rfl hs.registry
  | complete c reference r hc hg ht hv hs =>
    refine h.extend hkept (.put hx (completed c r.id) hc.mem hc.active rfl rfl rfl ?_ ?_)
      (h.complete hd hp hx hc hg ht hv hs.ledger hs.registry)
    · rw [hs.registry]
      rfl
    · rw [hs.registry]
      rfl

theorem History.transferred {clock : Clock} {ids : List Nat} (hi : db.Intact) (h : History db t)
    (ht : Transferred clock db ids db') :
    History db' (t.extend db db') := by
  have hreg : db'.registry = db.registry := by
    cases ht with
    | wrote l _ he => exact he.same.registry
    | pruned keep l _ | prunedEvents ids => rfl
  exact h.extend (fun r hr hs _ => ht.unaltered hi hr hs) (.of_eq (by rw [hreg]) (by rw [hreg]))
    (.of_reference (by unfold Db.reference; rw [hreg]))

end Turns

end Hf2l.Exchange.FedAvg
