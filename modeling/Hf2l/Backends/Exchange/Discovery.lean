import Hf2l.Exchange.FedAvg.Selection
import Hf2l.Lib.Latest
import Mathlib.Data.List.Induction
import Mathlib.Data.Prod.Lex
import Mathlib.Data.String.Basic

/-!
# `Hf2l.Backends.Exchange.Discovery`: the submissions of a round, on the client and on the server

`ExchangeStore.discover_submissions` (`src/hf2l/backends/exchange.py`) lists the published updates
of a space and keeps, per participant, the newest one on the base of the round.
`FedAvgProfile.select_inputs` does the same on the server (`Store.Profile`). The two loops are
compared through what they keep (`Lib.Latest`), so the two listings may come in any order.

The loop of the client has the candidate of a participant in `newest` and its rank in `order`; the
model keeps the record that both are read from. A participant is a text, as the profile admits no
other.
-/

set_option autoImplicit false

namespace Hf2l.Backends.Exchange

open Lib Lib.Checked Hf2l.Exchange Hf2l.Exchange.FedAvg

structure RoundContext where
  repoId : String
  revision : Id

structure SubmissionCandidate where
  identifier : Id
  revision : Id
  author : Id
  participant : String
deriving DecidableEq, Repr

/-- `_candidate`. -/
def candidate (record : Descriptor) : Except String SubmissionCandidate :=
  match participantText record.creatorBindings with
  | some p =>
    if record.state ≠ .published ∨ record.kind ≠ "training.update" ∨ p = "" then
      throw "Record is not a published participant submission"
    else return ⟨record.id, record.id, record.creator, p⟩
  | none => throw "Record is not a published participant submission"

/-- `(record.published_at or 0, record.id)`. -/
def rank (record : Descriptor) : Time ×ₗ Id := toLex (record.publishedAt.getD 0, record.id)

def participantOf (record : Descriptor) : String := (participantText record.creatorBindings).getD ""

def superseded (old new : Id) : String := old ++ ": superseded by " ++ new

structure Discovery where
  newest : List Descriptor := []
  /-- The records that were skipped, each with the one that superseded it. -/
  skipped : List (Descriptor × Descriptor) := []

/-- One pass of the loop. -/
def discoverStep (base : Id) (s : Discovery) (record : Descriptor) : Except String Discovery :=
  if baseText record.metadata ≠ some base then return s
  else do
    let found ← candidate record
    match Table.get participantOf found.participant s.newest with
    | some previous =>
      if rank record ≤ rank previous then
        return { s with skipped := s.skipped ++ [(record, previous)] }
      return ⟨Table.put participantOf record s.newest, s.skipped ++ [(previous, record)]⟩
    | none => return { s with newest := s.newest ++ [record] }

/-- `discover_submissions`, for the records that the request lists: published updates. -/
def discoverSubmissions (repoId : String) (context : Option RoundContext)
    (records : List Descriptor) :
    Except String (List SubmissionCandidate × List String) :=
  match context with
  | none => throw "Exchange discovery requires the explicit round context"
  | some context => do
    if context.repoId ≠ repoId then throw "Exchange discovery requires the explicit round context"
    let s ← records.foldlM (discoverStep context.revision) {}
    let candidates ← s.newest.mapM candidate
    return (candidates.insertionSort (fun a b => a.identifier ≤ b.identifier),
      s.skipped.map fun x => superseded x.1.id x.2.id)

/-! ### What the loops keep -/

/-- A published update of a participant. -/
def Submission (r : Descriptor) : Prop :=
  r.state = .published ∧ r.kind = "training.update" ∧ participantOf r ≠ ""

instance (r : Descriptor) : Decidable (Submission r) := inferInstanceAs (Decidable (_ ∧ _))

/-- The updates on the base. -/
def onBase (base : Id) (records : List Descriptor) : List Descriptor :=
  records.filter fun r => baseText r.metadata = some base

variable {base : Id} {records : List Descriptor} {r : Descriptor}

theorem Submission.text (h : Submission r) :
    participantText r.creatorBindings = some (participantOf r) := by
  obtain ⟨-, -, hne⟩ := h
  unfold participantOf at hne ⊢
  cases hp : participantText r.creatorBindings with
  | none => rw [hp] at hne; exact absurd rfl hne
  | some p => rfl

theorem Submission.candidate (h : Submission r) :
    candidate r = .ok ⟨r.id, r.id, r.creator, participantOf r⟩ := by
  unfold Exchange.candidate
  rw [h.text]
  exact if_neg (by simp [h.1, h.2.1, h.2.2])

theorem later_iff (a b : Descriptor) : later a b = true ↔ rank b < rank a := by
  unfold later rank
  simp only [Prod.Lex.toLex_lt_toLex, Bool.or_eq_true, Bool.and_eq_true, decide_eq_true_eq]
  exact or_congr Iff.rfl (and_congr_left fun _ => eq_comm)

theorem onBase_concat (base : Id) (done : List Descriptor) (r : Descriptor) :
    onBase base (done ++ [r]) = if baseText r.metadata = some base then
      onBase base done ++ [r] else onBase base done := by
  unfold onBase
  rw [List.filter_append, List.filter_singleton]
  split <;> simp_all

theorem keepLatest_latest {l : List Descriptor} {selected : List (String × Descriptor)}
    (hsel : ∀ e ∈ selected, e.1 = participantOf e.2)
    (h : Latest participantOf rank l (selected.map (·.2))) :
    (∀ e ∈ keepLatest (participantOf r) r selected, e.1 = participantOf e.2) ∧
      Latest participantOf rank (l ++ [r])
        ((keepLatest (participantOf r) r selected).map (·.2)) := by
  have hkeyed : Table.Keyed (fun e : String × Descriptor => e.1) selected := by
    have hkeys : selected.map (·.1) = (selected.map (·.2)).map participantOf := by
      rw [List.map_map]
      exact List.map_congr_left hsel
    show (selected.map (·.1)).Nodup
    rw [hkeys]
    exact h.keyed
  rcases keepLatest_cases hkeyed with ⟨hnew, he⟩ | ⟨previous, hprevious, he⟩
  · rw [he]
    refine ⟨fun e hmem => ?_, ?_⟩
    · rcases List.mem_append.mp hmem with hmem | hmem
      · exact hsel e hmem
      · exact List.mem_singleton.mp hmem ▸ rfl
    · rw [List.map_append]
      refine h.insert fun x hx => ?_
      obtain ⟨e, hmem, rfl⟩ := List.mem_map.mp hx
      exact hsel e hmem ▸ hnew e hmem
  · have hold : previous ∈ selected.map (·.2) := List.mem_map_of_mem hprevious
    have hkey : participantOf previous = participantOf r := (hsel _ hprevious).symm
    rw [he]
    split_ifs with hlater
    · refine ⟨fun e hmem => ?_, ?_⟩
      · rcases Table.of_mem_put hmem with ⟨hmem, -⟩ | rfl
        · exact hsel e hmem
        · rfl
      · have hput : (Table.put (·.1) (participantOf r, r) selected).map (·.2) =
            Table.put participantOf r (selected.map (·.2)) := by
          unfold Table.put
          rw [List.map_map, List.map_map]
          refine List.map_congr_left fun e hmem => ?_
          simp only [Function.comp_apply, hsel e hmem]
          split <;> rfl
        rw [hput]
        exact h.replace hold hkey ((later_iff r previous).mp hlater)
    · exact ⟨hsel, h.keep hold hkey (not_lt.mp fun hlt => hlater ((later_iff r previous).mpr hlt))⟩

theorem Submission.selectStep (h : Submission r) (selected : List (String × Descriptor)) :
    selectStep base selected r = if baseText r.metadata = some base then
    keepLatest (participantOf r) r selected else selected := by
  unfold FedAvg.selectStep
  rw [if_neg (by simp [h.1, h.2.1]), h.text, ite_not]
  exact if_congr Iff.rfl (if_neg h.2.2) rfl

/-- **What the server selects is the newest update of each participant.** -/
theorem selectInputs_latest (base : Id) (hsub : ∀ r ∈ records, Submission r) :
    ∃ t, Latest participantOf rank (onBase base records) t ∧
      (selectInputs records base).Perm t := by
  have hloop : ∀ done : List Descriptor, (∀ r ∈ done, Submission r) →
      (∀ e ∈ done.foldl (selectStep base) [], e.1 = participantOf e.2) ∧
        Latest participantOf rank (onBase base done)
          ((done.foldl (selectStep base) []).map (·.2)) := by
    intro done hdone
    induction done using List.reverseRecOn with
    | nil => exact ⟨fun e he => absurd he List.not_mem_nil, Latest.nil⟩
    | append_singleton done r ih =>
      obtain ⟨hsel, hlatest⟩ := ih fun x hx => hdone x (List.mem_append_left _ hx)
      have hr := hdone r (List.mem_append_right _ List.mem_cons_self)
      rw [List.foldl_append, List.foldl_cons, List.foldl_nil, onBase_concat, hr.selectStep]
      split_ifs
      · exact keepLatest_latest hsel hlatest
      · exact ⟨hsel, hlatest⟩
  exact ⟨_, (hloop records hsub).2, (List.perm_insertionSort _ _).map _⟩

/-- A replaced entry takes the place of the new one. -/
theorem put_perm {t : List Descriptor} (hk : Table.Keyed participantOf t) {y : Descriptor}
    (hy : y ∈ t) (hkey : participantOf y = participantOf r) :
    (y :: Table.put participantOf r t).Perm (r :: t) := by
  obtain ⟨a, b, rfl⟩ := List.append_of_mem hy
  have hne : ∀ x ∈ a ++ b, participantOf x ≠ participantOf r := fun x hx he => by
    have hnodup := (List.nodup_middle.mp (by simpa [Table.Keyed] using hk :
      (a.map participantOf ++ participantOf y :: b.map participantOf).Nodup))
    refine (List.nodup_cons.mp hnodup).1 ?_
    rw [← List.map_append, hkey, ← he]
    exact List.mem_map_of_mem hx
  have hput : Table.put participantOf r (a ++ y :: b) = a ++ r :: b := by
    have ha := Table.put_eq_self fun x hx => hne x (List.mem_append_left b hx)
    have hb := Table.put_eq_self fun x hx => hne x (List.mem_append_right a hx)
    unfold Table.put at ha hb ⊢
    rw [List.map_append, List.map_cons, if_pos hkey, ha, hb]
  rw [hput]
  exact ((List.perm_middle.cons y).trans (List.Perm.swap r y _)).trans
    (List.perm_middle.symm.cons r)

/-- What the loop of the client has done: a record on the base is kept or reported. -/
structure Discovered (base : Id) (done : List Descriptor) (s : Discovery) : Prop where
  latest : Latest participantOf rank (onBase base done) s.newest
  reported : (s.skipped.map (·.1) ++ s.newest).Perm (onBase base done)

theorem Discovered.step {done : List Descriptor} {s : Discovery} (h : Discovered base done s)
    (hr : Submission r) :
    ∃ s', discoverStep base s r = .ok s' ∧ Discovered base (done ++ [r]) s' := by
  have hconcat := onBase_concat base done r
  unfold discoverStep
  by_cases hbase : baseText r.metadata = some base
  · rw [if_neg (not_not.mpr hbase), hr.candidate]
    rw [if_pos hbase] at hconcat
    dsimp only [bind, Except.bind]
    cases hget : Table.get participantOf (participantOf r) s.newest with
    | none =>
      refine ⟨_, rfl, ?_, ?_⟩
      · rw [hconcat]
        exact h.latest.insert fun x hx => Table.get_none hget x hx
      · rw [hconcat, ← List.append_assoc]
        exact h.reported.append_right [r]
    | some previous =>
      obtain ⟨hmem, hkey⟩ := Table.get_mem hget
      by_cases hle : rank r ≤ rank previous
      · refine ⟨_, if_pos hle, ?_, ?_⟩
        · rw [hconcat]
          exact h.latest.keep hmem hkey hle
        · rw [hconcat, List.map_append, List.append_assoc]
          refine (List.perm_middle.trans ?_).trans (List.perm_append_singleton r _).symm
          exact h.reported.cons r
      · refine ⟨_, if_neg hle, ?_, ?_⟩
        · rw [hconcat]
          exact h.latest.replace hmem hkey (not_le.mp hle)
        · rw [hconcat, List.map_append, List.append_assoc]
          refine ((put_perm h.latest.keyed hmem hkey).append_left _).trans ?_
          refine (List.perm_middle.trans ?_).trans (List.perm_append_singleton r _).symm
          exact h.reported.cons r
  · rw [if_pos hbase]
    rw [if_neg hbase] at hconcat
    exact ⟨s, rfl, hconcat ▸ h.latest, hconcat ▸ h.reported⟩

/-- The loop of the client ends, with the newest update of each participant. -/
theorem discovered {listed done : List Descriptor} {s : Discovery}
    (hsub : ∀ r ∈ listed, Submission r) (h : Discovered base done s) :
    ∃ s', listed.foldlM (discoverStep base) s = .ok s' ∧ Discovered base (done ++ listed) s' := by
  induction listed generalizing done s with
  | nil => exact ⟨s, rfl, by rwa [List.append_nil]⟩
  | cons r rest ih =>
    obtain ⟨s₁, hs₁, h₁⟩ := h.step (hsub r List.mem_cons_self)
    obtain ⟨s₂, hs₂, h₂⟩ := ih (fun x hx => hsub x (List.mem_cons_of_mem r hx)) h₁
    refine ⟨s₂, ?_, by rwa [List.append_assoc] at h₂⟩
    rw [List.foldlM_cons, hs₁]
    exact hs₂

theorem rank_injOn (hids : (records.map Descriptor.id).Nodup) {x y : Descriptor} (hx : x ∈ records)
    (hy : y ∈ records) (he : rank x = rank y) : x = y := by
  have hid : x.id = y.id := congrArg (fun z => (ofLex z).2) he
  exact Table.Keyed.eq_of_key_eq hids hx hy hid

theorem mapM_candidate {t : List Descriptor} (hsub : ∀ r ∈ t, Submission r) :
    t.mapM candidate = .ok (t.map fun r => ⟨r.id, r.id, r.creator, participantOf r⟩) := by
  induction t with
  | nil => rfl
  | cons r t ih =>
    rw [List.mapM_cons, (hsub r List.mem_cons_self).candidate,
      ih fun x hx => hsub x (List.mem_cons_of_mem r hx)]
    rfl

/-- **Client and server select the same submissions**, the newest update on the base of each
participant, and the client keeps each record on the base or reports it, once. -/
theorem selections_agree (repoId : String) (base : Id) (records listed : List Descriptor)
    (hperm : listed.Perm records) (hids : (records.map Descriptor.id).Nodup)
    (hsub : ∀ r ∈ records, Submission r) :
    ∃ candidates, ∃ skipped : List (Descriptor × Descriptor),
      discoverSubmissions repoId (some ⟨repoId, base⟩) listed =
        .ok (candidates, skipped.map fun x => superseded x.1.id x.2.id) ∧
      (∀ id, id ∈ candidates.map SubmissionCandidate.identifier ↔
        id ∈ (selectInputs records base).map Descriptor.id) ∧
      (∀ r ∈ records, r ∈ selectInputs records base ↔ baseText r.metadata = some base ∧
        ∀ x ∈ records, baseText x.metadata = some base → participantOf x = participantOf r →
        rank x ≤ rank r) ∧
      (skipped.map (·.1) ++ selectInputs records base).Perm
        (records.filter fun r => baseText r.metadata = some base) := by
  obtain ⟨t, hlatest, hselected⟩ := selectInputs_latest base hsub
  obtain ⟨s, hloop, hdone⟩ := discovered (fun r hr => hsub r (hperm.mem_iff.mp hr))
    (⟨Latest.nil, .nil⟩ : Discovered base [] {})
  rw [List.nil_append] at hdone
  have hbase {x : Descriptor} : x ∈ onBase base records ↔ x ∈ records ∧
      baseText x.metadata = some base := by
    simp [onBase]
  have hlisted : (onBase base listed).Perm (onBase base records) := hperm.filter _
  have hrank : ∀ x ∈ onBase base records, ∀ y ∈ onBase base records, rank x = rank y → x = y :=
    fun x hx y hy he => rank_injOn hids (hbase.mp hx).1 (hbase.mp hy).1 he
  -- Both tables have the newest records, and each has them once.
  have hsame : s.newest.Perm t := by
    refine (List.perm_ext_iff_of_nodup (List.Nodup.of_map _ hdone.latest.keyed)
      (List.Nodup.of_map _ hlatest.keyed)).mpr
      fun x => ?_
    rw [hlatest.mem_iff hrank,
      hdone.latest.mem_iff fun x hx y hy => hrank x (hlisted.mem_iff.mp hx) y
      (hlisted.mem_iff.mp hy)]
    exact and_congr hlisted.mem_iff (forall_congr' fun y => imp_congr hlisted.mem_iff Iff.rfl)
  have hnewest : ∀ r ∈ s.newest, Submission r := fun r hr =>
    hsub r (hbase.mp (hlisted.mem_iff.mp (hdone.latest.newest r hr).1)).1
  have hrun : discoverSubmissions repoId (some ⟨repoId, base⟩) listed =
      .ok ((s.newest.map
        fun r => (⟨r.id, r.id, r.creator, participantOf r⟩ : SubmissionCandidate)).insertionSort
        (fun a b => a.identifier ≤ b.identifier),
          s.skipped.map fun x => superseded x.1.id x.2.id) := by
    simp only [discoverSubmissions, block_ok]
    exact ⟨not_not.mpr rfl, s, hloop, _, mapM_candidate hnewest, rfl, rfl⟩
  refine ⟨_, s.skipped, hrun, fun id => ?_, fun r hr => ?_, ?_⟩
  · rw [(List.perm_insertionSort _ _).map _ |>.mem_iff, List.map_map]
    exact ((hsame.trans hselected.symm).map Descriptor.id).mem_iff
  · rw [hselected.mem_iff, hlatest.mem_iff hrank]
    unfold Newest
    simp only [hbase, hr, true_and, and_imp]
  · exact ((hselected.trans hsame.symm).append_left _).trans (hdone.reported.trans hlisted)

/-- An update on the base `m`. -/
def updateOn (id : Id) (publishedAt : Option Time) (participant : String) : Descriptor :=
  ⟨id, "training.update", "u", [("base_record_id", .str "m")], [("participant", .str participant)],
    publishedAt, .published⟩

/-- Two updates of one participant at one time, and one without a time. -/
theorem selections_agree_tie : ∃ candidates, ∃ skipped : List (Descriptor × Descriptor),
    discoverSubmissions "s" (some ⟨"s", "m"⟩) [updateOn "b" (some 1) "p", updateOn "c" none "q",
      updateOn "a" (some 1) "p"] = .ok (candidates, skipped.map fun x => superseded x.1.id x.2.id) ∧
    ∀ id, id ∈ candidates.map SubmissionCandidate.identifier ↔ id ∈ ["b", "c"] := by
  obtain ⟨candidates, skipped, hrun, hsame, -⟩ := selections_agree "s" "m"
    [updateOn "a" (some 1) "p", updateOn "b" (some 1) "p", updateOn "c" none "q"]
    [updateOn "b" (some 1) "p", updateOn "c" none "q", updateOn "a" (some 1) "p"]
    (List.perm_append_comm : List.Perm ([_, _] ++ [_]) _) (by decide +kernel) (by decide +kernel)
  have hids : (selectInputs [updateOn "a" (some 1) "p", updateOn "b" (some 1) "p",
      updateOn "c" none "q"] "m").map
      Descriptor.id = ["b", "c"] := by decide +kernel
  exact ⟨candidates, skipped, hrun, hids ▸ hsame⟩

end Hf2l.Backends.Exchange
