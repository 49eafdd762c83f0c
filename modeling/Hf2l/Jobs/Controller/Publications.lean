import Hf2l.Lib.Checked
import Hf2l.Lib.JsonValue
import Hf2l.Lib.Word
import Mathlib.Logic.Relation

/-!
# `Hf2l.Jobs.Controller.Publications`: is a saved publication in the chain of `main`?

`internal/controller/publications.go`. The observer reads records of the exchange, which it does not
trust to be well formed. `inChain` walks from the target of `main` along the bases of the records,
and `recordProof` decides with it whether a publication that a worker has saved took place.

A record is the map that was decoded. `getRecord` stands for the exchange: it answers an identifier
with any record, also with one whose own `id` is another, since the observer never compares the two.
`inChain` returns how many records it has looked up next to its answer. The canonical encoding and
the names of the principals are parameters.

`publication_search` says what an answer of `inChain` proves, for every exchange and every start
where that is so. Two answers need more than the code checks. The rounds of a chain that was found
decrease by one if the start has a round that is not negative (`main` checks that), and a published
record that is absent is no ancestor of `main` if it has the identifier it was asked for by.
-/

set_option autoImplicit false

namespace Hf2l.Jobs.Controller

open Lib Lib.Json Lib.Checked

abbrev Doc := List (String × Value)

def publicationString : Option Value → String
  | some (.str s) => s
  | _ => ""

def publicationMap : Option Value → Doc
  | some (.obj fields) => fields
  | _ => []

def publicationInteger : Option Value → Option Int
  | some (.int n) => if Word.Fits n then some n else none
  | _ => none

def publicationInline (record : Doc) (name : String) : Except String Doc :=
  match record.lookup "metadata" with
  | none => .ok []
  | some (.obj metadata) =>
    match (publicationMap (metadata.lookup "hf2l_files")).lookup name with
    | none => .ok []
    | some (.obj doc) => .ok doc
    | some _ => .error "invalid_inline_publication"
  | some _ => .error "invalid_publication_metadata"

/-! ### `inChain` -/

/-- The base that a record names, or nothing. -/
def baseOf (current : Doc) : Except String String := do
  let parent := publicationString
    ((publicationMap (current.lookup "metadata")).lookup "base_record_id")
  let currentDoc ← publicationInline current "fedavg_round.json"
  return if parent = "" then publicationString (currentDoc.lookup "base_revision") else parent

/-- What a record says about its round. -/
def roundOf (record : Doc) : Except String (Option Int) := do
  let doc ← publicationInline record "fedavg_round.json"
  return publicationInteger (doc.lookup "round")

/-- The kind and the state of the base, and its round. -/
def checkAncestry (current previous : Doc) : Except String Unit := do
  if publicationString (previous.lookup "kind") ≠ "model.global" ∨
      publicationString (previous.lookup "state") ≠ "published" then
        throw "invalid_publication_ancestry"
  match ← roundOf previous, ← roundOf current with
  | some priorRound, some currentRound =>
    if priorRound ≠ Word.wrap (currentRound - 1) then throw "publication_ancestry_round_mismatch"
  | _, _ => throw "publication_ancestry_round_mismatch"

/-- The loop of `inChain`, and how many records it looks up. -/
def walk (getRecord : String → Option Doc) (recordId : String) :
    Nat → Doc → Except String Bool × Nat
  | 0, _ => (.error "publication_ancestry_bound_exceeded", 0)
  | limit + 1, current =>
    if publicationString (current.lookup "id") = recordId then (.ok true, 0)
    else
      match baseOf current with
      | .error e => (.error e, 0)
      | .ok parent =>
        if parent = "" then (.ok false, 0)
        else
          match getRecord parent with
          | none => (.error "publication_ancestry_unavailable", 1)
          | some previous =>
            match checkAncestry current previous with
            | .error e => (.error e, 1)
            | .ok () =>
              ((walk getRecord recordId limit previous).1,
                (walk getRecord recordId limit previous).2 + 1)

/-- The bound on the ancestry, with its default. -/
def ancestryLimit (maxAncestry : Int) : Int := if maxAncestry = 0 then 1024 else maxAncestry

def inChain (getRecord : String → Option Doc) (maxAncestry : Int) (recordId : String)
    (main : Option Doc) : Except String Bool × Nat :=
  if ancestryLimit maxAncestry < 1 then (.error "invalid_publication_ancestry_bound", 0)
  else
    match main with
    | none => (.ok false, 0)
    | some current => walk getRecord recordId (ancestryLimit maxAncestry).toNat current

/-! ### `recordProof` -/

inductive PublicationRole where
  | init | owner | client
deriving DecidableEq, Repr

structure PublicationComponent where
  id : String
  participant : String

structure Observer where
  getRecord : String → Option Doc
  maxAncestry : Int
  principal : String → String → String → String
  canonical : Value → Option (List UInt8)

/-- The digests of the attachments of a record; a path that comes again replaces the one before. -/
def attachmentsOf (record : Doc) : Except String (List (String × Value)) :=
  match record.lookup "attachments" with
  | none => .ok []
  | some (.arr rows) => rows.foldlM (fun seen row =>
      match row with
      | .obj row =>
        .ok ((publicationString (row.lookup "path"), (row.lookup "sha256").getD .null) :: seen)
      | _ => .error "invalid_publication_attachment") []
  | some _ => .error "invalid_publication_attachment"

/-- What a worker has recorded about a publication. -/
structure SavedPublication where
  intent : Doc
  upload : Doc
  manifest : Doc
  manifestSha : String

/-- The checks on the content of a record that was found. -/
def checkContent (o : Observer) (jobId space : String) (component : PublicationComponent)
    (role : PublicationRole) (saved : SavedPublication) (record : Doc) : Except String Unit := do
  if publicationString (record.lookup "space_id") ≠ space ∨
      publicationString (record.lookup "creator") ≠
        o.principal jobId component.id component.participant then
    throw "publication_creator_mismatch"
  if publicationString (record.lookup "kind") ≠
    (if role = .client then "training.update" else "model.global") then
    throw "publication_kind_mismatch"
  let hashes := (if role = .owner then saved.manifest else saved.intent).lookup
    "checkpoint_files_sha256"
  let expectedHashes ← match hashes with
    | none => pure []
    | some (.obj hashes) => pure hashes
    | some _ => throw "invalid_publication_checkpoint_hashes"
  let attachments ← attachmentsOf record
  if ¬ expectedHashes.all fun f => match f.2 with
      | .str expected => publicationString (attachments.lookup f.1) = expected
      | _ => false then throw "publication_checkpoint_hash_mismatch"
  let publicationIntent := publicationMap (saved.intent.lookup "publication_intent")
  let expectedManifest := match role with
    | .init => saved.intent.lookup "manifest_sha256"
    | .owner => publicationIntent.lookup "manifest_sha256"
    | .client => none
  let sameManifest : Bool := match expectedManifest with
    | none | some .null => true
    | some (.str expected) => expected = "" ∨ expected = saved.manifestSha
    | some _ => false
  if !sameManifest then throw "publication_manifest_hash_mismatch"
  let published ← publicationInline record
      (if role = .client then "fedavg_submission.json" else "fedavg_round.json")
  if publicationString (published.lookup "complete_manifest") = "fedavg_round-full.json" then
    if publicationString (attachments.lookup "fedavg_round-full.json") ≠ saved.manifestSha then
      throw "publication_full_manifest_hash_mismatch"
  else if (o.canonical (.obj published)).isNone ∨
    o.canonical (.obj published) ≠ o.canonical (.obj saved.manifest) then
    throw "publication_inline_manifest_mismatch"
  if role = .owner then
    let target := publicationInteger (publicationIntent.lookup "target_round")
    if target.isNone ∨ target ≠ publicationInteger (published.lookup "round") then
      throw "publication_target_round_mismatch"
  if role = .client then
    if publicationString
      ((publicationMap (record.lookup "creator_bindings")).lookup "participant") ≠
        component.participant then throw "publication_participant_mismatch"
    if publicationString ((publicationMap (record.lookup "metadata")).lookup "base_record_id") ≠
        publicationString (saved.intent.lookup "base_revision") then
          throw "publication_base_mismatch"

def recordProof (o : Observer) (jobId space : String) (component : PublicationComponent)
    (role : PublicationRole) (saved : SavedPublication) (main : Option Doc) :
    Except String (String × String) := do
  let recordId := publicationString (saved.upload.lookup "record_id")
  if recordId = "" then throw "publication_creation_receipt_missing"
  match o.getRecord recordId with
  | none => throw "saved_publication_unavailable"
  | some record =>
    checkContent o jobId space component role saved record
    let state := publicationString (record.lookup "state")
    if state = "published" then
      if role = .client then return ("confirmed", recordId)
      let found ← (inChain o.getRecord o.maxAncestry recordId main).1
      if found then return ("confirmed", recordId)
      if role = .init ∧ main.isSome then throw "initial_publication_conflicts_with_main"
      return ("absent", recordId)
    else if state ∈ ["cancelled", "failed", "withdrawn", "expired", "draft"] then
      return ("absent", recordId)
    else throw "publication_server_state_unknown"

/-! ### What the walk has seen -/

variable {getRecord : String → Option Doc} {recordId : String} {limit : Nat}
  {current previous : Doc}

section
variable (getRecord : String → Option Doc)

/-- The second record is the base of the first. -/
def Link (a b : Doc) : Prop :=
  ∃ parent, baseOf a = .ok parent ∧ parent ≠ "" ∧ getRecord parent = some b

/-- The base is a published model of the round before. -/
def Descends (a b : Doc) : Prop :=
  Link getRecord a b ∧ publicationString (b.lookup "kind") = "model.global" ∧
    publicationString (b.lookup "state") = "published" ∧
      ∃ n, roundOf a = .ok (some n) ∧ roundOf b = .ok (some (n - 1))

/-- The chain ends at a root, and no record of it has the identifier. -/
def WalkedWithout (recordId : String) (main : Doc) : Prop :=
  (∃ root, Relation.ReflTransGen (Link getRecord) main root ∧ baseOf root = .ok "") ∧
    ∀ r, Relation.ReflTransGen (Link getRecord) main r →
      publicationString (r.lookup "id") ≠ recordId

/-- What one pass of the loop has done. -/
theorem walk_cases (limit : Nat) (h : publicationString (current.lookup "id") ≠ recordId) :
    (∃ e n, n ≤ 1 ∧ walk getRecord recordId (limit + 1) current = (.error e, n)) ∨
      (baseOf current = .ok "" ∧ walk getRecord recordId (limit + 1) current = (.ok false, 0)) ∨
      ∃ previous, Link getRecord current previous ∧ checkAncestry current previous = .ok () ∧
        walk getRecord recordId (limit + 1) current =
          ((walk getRecord recordId limit previous).1,
            (walk getRecord recordId limit previous).2 + 1) := by
  rw [walk, if_neg h]
  cases hbase : baseOf current with
  | error e => exact .inl ⟨e, 0, Nat.zero_le 1, rfl⟩
  | ok parent =>
    by_cases hroot : parent = ""
    · exact .inr (.inl ⟨hroot ▸ rfl, if_pos hroot⟩)
    · dsimp only
      rw [if_neg hroot]
      cases hget : getRecord parent with
      | none => exact .inl ⟨_, 1, Nat.le_refl 1, rfl⟩
      | some previous =>
        cases hcheck : checkAncestry current previous with
        | error e => exact .inl ⟨e, 1, Nat.le_refl 1, by simp only [hcheck]⟩
        | ok u =>
          exact .inr (.inr ⟨previous, ⟨parent, hbase, hroot, hget⟩, hcheck, by simp only [hcheck]⟩)

end

theorem roundOf_fits {n : Int} (h : roundOf current = .ok (some n)) : Word.Fits n := by
  simp only [roundOf, block_ok] at h
  obtain ⟨doc, -, hn⟩ := h
  unfold publicationInteger at hn
  split at hn
  case h_1 m =>
    obtain ⟨hfits, hm⟩ := Option.ite_none_right_eq_some.mp hn
    exact Option.some.inj hm ▸ hfits
  case h_2 => cases hn

/-- The base is one round before, unless the round is the least there is. -/
theorem checkAncestry_descends (hlink : Link getRecord current previous)
    (h : checkAncestry current previous = .ok ())
    (hlow : ∀ n, roundOf current = .ok (some n) → -9223372036854775808 < n) :
    Descends getRecord current previous := by
  simp only [checkAncestry, block_ok, not_or, not_not] at h
  obtain ⟨⟨hkind, hstate⟩, prior, hprior, round, hround, h⟩ := h
  match prior, round, h with
  | some prior, some n, h =>
    have hfits := roundOf_fits hround
    have hn := hlow n hround
    have hwrap : Word.wrap (n - 1) = n - 1 :=
      Word.wrap_eq ⟨by omega, by unfold Word.Fits at hfits; omega⟩
    have heq : prior = Word.wrap (n - 1) := not_not.mp (refuse_ok.mp h).1
    exact ⟨hlink, hkind, hstate, n, hround, by rw [hprior, heq, hwrap]⟩

/-- The loop looks up no more records than its bound. -/
theorem walk_lookups (getRecord : String → Option Doc) (recordId : String) (limit : Nat)
    (current : Doc) :
    (walk getRecord recordId limit current).2 ≤ limit := by
  induction limit generalizing current with
  | zero => exact Nat.le_refl 0
  | succ limit ih =>
    by_cases hid : publicationString (current.lookup "id") = recordId
    · rw [walk, if_pos hid]
      exact Nat.zero_le _
    · rcases walk_cases getRecord limit hid with ⟨e, n, hn, he⟩ | ⟨-, he⟩ | ⟨previous, -, -, he⟩
      · rw [he]
        exact hn.trans (Nat.le_add_left 1 limit)
      · rw [he]
        exact Nat.zero_le _
      · rw [he]
        exact Nat.succ_le_succ (ih previous)

theorem link_unique {a b c : Doc} (hb : Link getRecord a b) (hc : Link getRecord a c) : b = c := by
  obtain ⟨p, hp, -, hb⟩ := hb
  obtain ⟨q, hq, -, hc⟩ := hc
  obtain rfl : p = q := Except.ok.inj (hp.symm.trans hq)
  exact Option.some.inj (hb.symm.trans hc)

/-- A record that was found is reached over published models, one round before the other. -/
theorem walk_true (h : (walk getRecord recordId limit current).1 = .ok true)
    (hround : ∀ n, roundOf current = .ok (some n) → -9223372036854775808 + limit ≤ n) :
    ∃ r, Relation.ReflTransGen (Descends getRecord) current r ∧
      publicationString (r.lookup "id") = recordId := by
  induction limit generalizing current with
  | zero => cases h
  | succ limit ih =>
    by_cases hid : publicationString (current.lookup "id") = recordId
    · exact ⟨current, .refl, hid⟩
    · rcases walk_cases getRecord limit hid with
        ⟨e, n, -, he⟩ | ⟨-, he⟩ | ⟨previous, hlink, hcheck, he⟩
      · rw [he] at h
        cases h
      · rw [he] at h
        cases h
      · rw [he] at h
        have hdown := checkAncestry_descends hlink hcheck fun n hn => by
          have hlow := hround n hn
          push_cast at hlow
          omega
        obtain ⟨-, -, -, n, hn, hprior⟩ := id hdown
        obtain ⟨r, hpath, hr⟩ := ih h fun m hm => by
          have hlow := hround n hn
          have hm : n - 1 = m := Option.some.inj (Except.ok.inj (hprior.symm.trans hm))
          push_cast at hlow
          omega
        exact ⟨r, hpath.head hdown, hr⟩

/-- A definite no comes from a chain that was walked to its root. -/
theorem walk_false (h : (walk getRecord recordId limit current).1 = .ok false) :
    WalkedWithout getRecord recordId current := by
  induction limit generalizing current with
  | zero => cases h
  | succ limit ih =>
    by_cases hid : publicationString (current.lookup "id") = recordId
    · rw [walk, if_pos hid] at h
      cases h
    · rcases walk_cases getRecord limit hid with ⟨e, n, -, he⟩ | ⟨hroot, -⟩
        | ⟨previous, hlink, -, he⟩
      · rw [he] at h
        cases h
      · refine ⟨⟨current, .refl, hroot⟩, fun r hr => ?_⟩
        rcases hr.cases_head with rfl | ⟨b, ⟨parent, hparent, hne, -⟩, -⟩
        · exact hid
        · exact absurd (Except.ok.inj (hparent.symm.trans hroot)) hne
      · rw [he] at h
        obtain ⟨⟨root, hpath, hroot⟩, hall⟩ := ih h
        refine ⟨⟨root, hpath.head hlink, hroot⟩, fun r hr => ?_⟩
        rcases hr.cases_head with rfl | ⟨b, hb, hrest⟩
        · exact hid
        · exact hall r (link_unique hb hlink ▸ hrest)

theorem inChain_false {maxAncestry : Int} {main : Doc}
    (h : (inChain getRecord maxAncestry recordId (some main)).1 = .ok false) :
    WalkedWithout getRecord recordId main := by
  unfold inChain at h
  split at h
  case isTrue => cases h
  case isFalse => exact walk_false h

/-- A publication that is published and not of a client is absent only if `inChain` says so. -/
theorem recordProof_absent {o : Observer} {jobId space : String} {component : PublicationComponent}
    {role : PublicationRole} {saved : SavedPublication} {main : Option Doc} {record : Doc}
    (h : recordProof o jobId space component role saved main = .ok ("absent", recordId))
    (hget : o.getRecord recordId = some record)
    (hstate : publicationString (record.lookup "state") = "published") :
    (inChain o.getRecord o.maxAncestry recordId main).1 = .ok false := by
  simp only [recordProof, guard_ok] at h
  obtain ⟨-, h⟩ := h
  split at h
  case h_1 => cases h
  case h_2 found hfound =>
    simp only [block_ok] at h
    obtain ⟨-, h⟩ := h
    split at h
    case isTrue =>
      split at h
      case isTrue => simp [pure_ok] at h
      case isFalse =>
        obtain ⟨answer, hanswer, h⟩ := bind_ok.mp h
        cases answer with
        | true => simp [pure_ok] at h
        | false =>
          simp only [Bool.false_eq_true, if_false, guard_ok, pure_ok, Prod.mk.injEq, true_and] at h
          exact h.2 ▸ hanswer
    case isFalse hother =>
      split at h
      case isTrue =>
        simp only [pure_ok, Prod.mk.injEq, true_and] at h
        rw [h, hget] at hfound
        exact absurd (Option.some.inj hfound ▸ hstate) hother
      case isFalse => cases h

/-- **The search for a publication in the chain of `main`.** It looks up no more records than its
bound. From a start with a round that is not negative a record is found only over published models,
one round before the other. Nothing is found only if the chain was walked to its root and no record
of it has the identifier. A published record that has the identifier it was asked for by is absent
only if it is no ancestor of `main`. -/
theorem publication_search (getRecord : String → Option Doc) (maxAncestry : Int) (recordId : String)
    (main : Option Doc) :
    (inChain getRecord maxAncestry recordId main).2 ≤ (ancestryLimit maxAncestry).toNat ∧
      (maxAncestry ≤ Word.maxInt64 → (∀ m ∈ main, ∀ n, roundOf m = .ok (some n) → 0 ≤ n) →
        (inChain getRecord maxAncestry recordId main).1 = .ok true → ∃ m ∈ main, ∃ r,
          Relation.ReflTransGen (Descends getRecord) m r ∧
            publicationString (r.lookup "id") = recordId) ∧
      ((inChain getRecord maxAncestry recordId main).1 = .ok false →
        ∀ m ∈ main, WalkedWithout getRecord recordId m) ∧
      ∀ o : Observer, o.getRecord = getRecord → ∀ jobId space component role saved record,
        recordProof o jobId space component role saved main = .ok ("absent", recordId) →
        getRecord recordId = some record → publicationString (record.lookup "state") = "published" →
        publicationString (record.lookup "id") = recordId →
        ∀ m ∈ main, ¬ Relation.ReflTransGen (Link getRecord) m record := by
  refine ⟨?_, fun hlimit hmain => ?_, fun h m hm => inChain_false (Option.mem_def.mp hm ▸ h), ?_⟩
  · unfold inChain
    split
    · exact Nat.zero_le _
    · cases main with
      | none => exact Nat.zero_le _
      | some current => exact walk_lookups ..
  · unfold inChain
    split
    · exact nofun
    · cases main with
      | none => exact nofun
      | some current =>
        refine fun h => ⟨current, rfl, walk_true h fun n hn => ?_⟩
        have hn := hmain current rfl n hn
        unfold Word.maxInt64 at hlimit
        unfold ancestryLimit
        split <;> omega
  · rintro o rfl jobId space component role saved record h hget hstate hid m hm hpath
    have hchain := recordProof_absent h hget hstate
    exact (inChain_false (Option.mem_def.mp hm ▸ hchain)).2 record hpath hid

/-- A record with a round and a base. -/
def roundRecord (id : String) (round : Int) (base : String) : Doc :=
  [("id", .str id), ("kind", .str "model.global"), ("state", .str "published"),
    ("metadata", .obj [("base_record_id", .str base),
      ("hf2l_files", .obj [("fedavg_round.json", .obj [("round", .int round)])])])]

/-- An exchange with one model without a base. -/
def rootAt (id : String) (root : Doc) (asked : String) : Option Doc :=
  if asked = id then some root else none

/-- A chain of two models. -/
theorem publication_search_two :
    (inChain (rootAt "a" (roundRecord "a" 0 "")) 0 "a" (some (roundRecord "b" 1 "a"))).2 ≤ 1024 ∧
      ∃ r, Relation.ReflTransGen (Descends (rootAt "a" (roundRecord "a" 0 "")))
        (roundRecord "b" 1 "a") r ∧ publicationString (r.lookup "id") = "a" := by
  have hround : roundOf (roundRecord "b" 1 "a") = .ok (some 1) := rfl
  obtain ⟨hlookups, htrue, -⟩ :=
    publication_search (rootAt "a" (roundRecord "a" 0 "")) 0 "a" (some (roundRecord "b" 1 "a"))
  obtain ⟨m, hm, r, hpath, hr⟩ := htrue (by decide) (by
    rintro m hm n hn
    obtain rfl := Option.some.inj hm
    obtain rfl := Option.some.inj (Except.ok.inj (hround.symm.trans hn))
    decide) (by decide +kernel)
  exact ⟨hlookups, r, Option.some.inj hm ▸ hpath, hr⟩

/-- **Two answers that the records do not bear out.** The round before the least `int64` is the
greatest, and a base that has another identifier than the one it is found by is not met. -/
theorem publication_search_misled :
    ((inChain (rootAt "a" (roundRecord "a" 9223372036854775807 "")) 0 "a"
        (some (roundRecord "b" (-9223372036854775808) "a"))).1 = .ok true ∧
      ¬ ∃ r, Relation.ReflTransGen (Descends (rootAt "a" (roundRecord "a" 9223372036854775807 "")))
        (roundRecord "b" (-9223372036854775808) "a") r ∧ publicationString (r.lookup "id") = "a") ∧
    (inChain (rootAt "x" (roundRecord "y" 0 "")) 0 "x" (some (roundRecord "m" 1 "x"))).1 =
      .ok false ∧ Descends (rootAt "x" (roundRecord "y" 0 "")) (roundRecord "m" 1 "x")
      (roundRecord "y" 0 "") := by
  refine ⟨⟨by decide +kernel, ?_⟩, by decide +kernel, ⟨"x", rfl, by decide, rfl⟩, rfl, rfl, 1,
    rfl, rfl⟩
  rintro ⟨r, hpath, hid⟩
  rcases hpath.cases_head with rfl | ⟨c, ⟨-, -, -, n, hn, hprior⟩, -⟩
  · exact absurd hid (by decide)
  · have hn : -9223372036854775808 = n := Option.some.inj (Except.ok.inj hn)
    have hfits := (roundOf_fits hprior).1
    omega

end Hf2l.Jobs.Controller
