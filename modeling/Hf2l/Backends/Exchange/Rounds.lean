import Hf2l.Exchange.Domain.CanonicalJson
import Mathlib.Algebra.BigOperators.Group.List.Basic

/-!
# `Hf2l.Backends.Exchange.Rounds`: round manifests within the inline budget

`bounded_round` (`src/hf2l/backends/exchange.py`) shrinks a round manifest for inline storage. It
tries summaries of the submissions from the fullest to the plain count. The training values of the
fullest one are added after it has been measured, an equal share of the rest for each submission,
so what they take is counted here: an object is never larger than the sum that `scalars` keeps.
-/

set_option autoImplicit false

namespace Hf2l.Backends.Exchange

open Lib.Json Hf2l.Exchange.Domain

abbrev Object := List (String × Value)

/-! ### Sizes -/

/-- A string of `json.dumps(..., ensure_ascii=False)`. -/
def dumpsString (s : String) : List Char := quoted (fun c => (escapeDct c).getD [c]) s

mutual

/-- `json.dumps(value, sort_keys=True, separators=(",", ":"), ensure_ascii=False)`. A float is kept
as its `repr`. -/
def dumps : Value → List Char
  | .null => ['n', 'u', 'l', 'l']
  | .bool true => ['t', 'r', 'u', 'e']
  | .bool false => ['f', 'a', 'l', 's', 'e']
  | .int n => decimal n
  | .real literal => literal.toList
  | .str s => dumpsString s
  | .arr items => '[' :: joined (dumpsItems items) ++ [']']
  | .obj fields =>
    '{' :: joined ((Value.sortFields (dumpsFields fields)).map fun (k, t) =>
      dumpsString k ++ ':' :: t) ++ ['}']

def dumpsItems : List Value → List (List Char)
  | [] => []
  | v :: items => dumps v :: dumpsItems items

def dumpsFields : Object → List (String × List Char)
  | [] => []
  | (k, v) :: fields => (k, dumps v) :: dumpsFields fields

end

/-- `len(text.encode())`. -/
def encodedLength (text : List Char) : Nat := (text.map Char.utf8Size).sum

def metadataSize (value : Value) : Nat := encodedLength (dumps value)

def objectSize (fields : Object) : Nat := metadataSize (.obj fields)

/-! ### Bounding a manifest -/

/-- The loop of `scalars`, over the keys in order. -/
def scalarsFrom (limit : Int) : Object → Nat → Object
  | [], _ => []
  | (_, .arr _) :: rest, used | (_, .obj _) :: rest, used => scalarsFrom limit rest used
  | (key, value) :: rest, used =>
    let cost := objectSize [(key, value)]
    if (used + cost : Nat) > limit then [] else (key, value) :: scalarsFrom limit rest (used + cost)

def scalars (mapping : Object) (limit : Int) : Object :=
  scalarsFrom limit (Value.sortFields mapping) 2

def roundFile : String := "fedavg_round.json"

def roundFullFile : String := "fedavg_round-full.json"

/-- The items of `full.get("submissions", [])`, if each of them has a `get`. -/
def submissions (full : Object) : Option (List Object) :=
  match full.lookup "submissions" with
  | none => some []
  | some (.arr items) => items.mapM fun
    | .obj item => some item
    | _ => none
  | some (.str "") => some []
  | some (.obj []) => some []
  | _ => none

/-- `{key: item.get(key) for key in fields}`. -/
def summary (fields : List String) (item : Object) : Object :=
  fields.map fun key => (key, (item.lookup key).getD .null)

/-- An entry of the first level, before any training value is added. -/
def untrained (item : Object) : Object :=
  assign (summary ["participant", "resolved_revision", "num_examples", "coefficient"] item)
    ("training", .obj [])

def trained (share : Int) (item : Object) : Object :=
  match item.lookup "training" with
  | some (.obj training) => assign (untrained item) ("training", .obj (scalars training share))
  | _ => untrained item

section
variable (full : Object) (items : List Object) (budget : Int)

/-- What every level has: the manifest without its submissions, and their count. -/
def countOnly : Object :=
  let bounded := [("evaluation", .null), ("complete_manifest", .str roundFullFile),
    ("submission_count", .int items.length)].foldl assign (full.filter fun f => f.1 ≠ "submissions")
  match full.lookup "evaluation" with
  | some (.obj evaluation) => assign bounded ("evaluation", .obj (scalars evaluation (budget / 8)))
  | _ => bounded

def withSubmissions (entry : Object → Object) : Object :=
  assign (countOnly full items budget)
    ("submissions", .arr (items.map fun item => .obj (entry item)))

/-- The first level of `SUMMARY_LEVELS`. -/
def fullest : Object := withSubmissions full items budget untrained

def share : Int := (budget - objectSize (fullest full items budget)) / max 1 (items.length : Int)

/-- The first level with an equal share of training values for each submission. -/
def filled : Object := withSubmissions full items budget (trained (share full items budget))

/-- The second level. -/
def weighted : Object :=
  withSubmissions full items budget (summary ["participant", "num_examples", "coefficient"])

def named : Object :=
  assign (countOnly full items budget)
    ("participants", .arr (items.map fun item => (item.lookup "participant").getD .null))

def Fits (candidate : Object) : Prop := (objectSize candidate : Int) ≤ budget

instance (candidate : Object) : Decidable (Fits budget candidate) :=
  inferInstanceAs (Decidable (_ ≤ _))

def boundedRound : Option Object := do
  let items ← submissions full
  return if Fits budget (fullest full items budget) then filled full items budget
    else if Fits budget (weighted full items budget) then weighted full items budget
    else if Fits budget (named full items budget) then named full items budget
    else countOnly full items budget

/-- What a manifest is bounded to: the fullest level that fits. -/
inductive Bounds : Object → Prop
  | fullest (h : Fits budget (fullest full items budget))
    (hr : Fits budget (filled full items budget)) :
    Bounds (filled full items budget)
  | weighted (h0 : ¬Fits budget (fullest full items budget))
    (h : Fits budget (weighted full items budget)) :
    Bounds (weighted full items budget)
  | named (h0 : ¬Fits budget (fullest full items budget))
    (h1 : ¬Fits budget (weighted full items budget))
    (h : Fits budget (named full items budget)) : Bounds (named full items budget)
  | countOnly (h0 : ¬Fits budget (fullest full items budget))
    (h1 : ¬Fits budget (weighted full items budget))
    (h2 : ¬Fits budget (named full items budget)) : Bounds (countOnly full items budget)

end

/-- `INLINE_METADATA_BUDGET`. -/
def inlineMetadataBudget : Int := 65536 * 3 / 4

section
variable (inline extra : Object)

/-- `{INLINE_FILES_KEY: inline, **extra}`. -/
def inlineMetadata : Object := extra.foldl assign [("hf2l_files", .obj inline)]

/-- What the other metadata leaves of the inline budget. -/
def roundBudget : Int :=
  inlineMetadataBudget - objectSize (inlineMetadata (assign inline (roundFile, .obj [])) extra)

inductive BoundError where
  /-- The manifest does not have the shape that is read. -/
  | malformed
  /-- "Round metadata exceeds the inline budget after bounding its manifest". -/
  | exceeds
deriving DecidableEq

/-- `_bound_round`: the inline manifests, and the complete one if it is attached. -/
def boundRound : Except BoundError (Object × Option Value) :=
  if objectSize (inlineMetadata inline extra) ≤ inlineMetadataBudget then return (inline, none)
  else
    match inline.lookup roundFile with
    | some (.obj full) =>
      match boundedRound full (roundBudget inline extra) with
      | some round =>
        let inline := assign inline (roundFile, .obj round)
        if objectSize (inlineMetadata inline extra) > inlineMetadataBudget then throw .exceeds
        else return (inline, some (.obj full))
      | none => throw .malformed
    | _ => throw .malformed

end

/-! ### Accounting for sizes -/

theorem encodedLength_append (s t : List Char) :
    encodedLength (s ++ t) = encodedLength s + encodedLength t := by
  simp [encodedLength]

theorem encodedLength_cons (c : Char) (t : List Char) :
    encodedLength (c :: t) = c.utf8Size + encodedLength t := rfl

/-- A container, from the texts of what it holds. -/
theorem encodedLength_between (a z : Char) (ha : a.utf8Size = 1) (hz : z.utf8Size = 1)
    (ts : List (List Char)) :
    encodedLength (a :: joined ts ++ [z]) = 2 + (ts.map encodedLength).sum + (ts.length - 1) := by
  have hjoined : encodedLength (joined ts) = (ts.map encodedLength).sum + (ts.length - 1) := by
    induction ts with
    | nil => rfl
    | cons t ts ih =>
      cases ts with
      | nil => simp [joined]
      | cons u ts =>
        show encodedLength (t ++ ',' :: joined (u :: ts)) = _
        rw [encodedLength_append, encodedLength_cons, ih, show Char.utf8Size ',' = 1 from rfl]
        simp only [List.map_cons, List.sum_cons, List.length_cons]
        omega
  rw [encodedLength_append, encodedLength_cons, encodedLength_cons, hjoined, ha, hz]
  show 1 + _ + (1 + 0) = _
  omega

theorem metadataSize_arr (items : List Value) :
    metadataSize (.arr items) = 2 + (items.map metadataSize).sum + (items.length - 1) := by
  have hitems : dumpsItems items = items.map dumps := by
    induction items with
    | nil => rfl
    | cons v items ih => rw [dumpsItems, ih, List.map_cons]
  show encodedLength (dumps (.arr items)) = _
  rw [dumps, encodedLength_between _ _ rfl rfl, hitems, List.map_map, List.length_map]
  rfl

def fieldSize (f : String × Value) : Nat := encodedLength (dumpsString f.1) + 1 + metadataSize f.2

/-- The order of the fields does not matter. -/
theorem objectSize_eq (fields : Object) :
    objectSize fields = 2 + (fields.map fieldSize).sum + (fields.length - 1) := by
  have hfields : dumpsFields fields = fields.map fun f => (f.1, dumps f.2) := by
    induction fields with
    | nil => rfl
    | cons f fields ih => rw [dumpsFields, ih, List.map_cons]
  have hperm := Value.sortFields_perm (dumpsFields fields)
  show encodedLength (dumps (.obj fields)) = _
  rw [dumps, encodedLength_between _ _ rfl rfl, List.map_map, List.length_map, hperm.length_eq,
    (hperm.map _).sum_eq, hfields, List.map_map, List.length_map]
  congr 3
  refine List.map_congr_left fun f _ => ?_
  show encodedLength (dumpsString f.1 ++ ':' :: dumps f.2) = fieldSize f
  rw [encodedLength_append, encodedLength_cons, fieldSize, show Char.utf8Size ':' = 1 from rfl,
    Nat.add_assoc]
  rfl

/-- Another value in a field changes the size by the difference. -/
theorem objectSize_field (k : String) (v w : Value) (a b : Object) :
    objectSize (a ++ (k, v) :: b) + metadataSize w = objectSize (a ++ (k, w) :: b) +
      metadataSize v := by
  simp only [objectSize_eq, List.map_append, List.map_cons, List.sum_append, List.sum_cons,
    List.length_append, List.length_cons, fieldSize]
  omega

section
variable {fields : Object} {k : String}

theorem assign_new (h : k ∉ fields.map (·.1)) (v : Value) :
    assign fields (k, v) = fields ++ [(k, v)] := if_neg h

theorem mem_assign {f : String × Value} (h : k ∈ (assign fields f).map (·.1)) :
    k ∈ fields.map (·.1) ∨ k = f.1 := by
  unfold assign at h
  split at h
  · obtain ⟨g, hg, rfl⟩ := List.mem_map.mp h
    obtain ⟨x, hx, rfl⟩ := List.mem_map.mp hg
    split
    · exact Or.inr rfl
    · exact Or.inl (List.mem_map_of_mem hx)
  · rw [List.map_append, List.mem_append] at h
    exact h.imp_right List.mem_singleton.mp

/-- The fields around one that is there. -/
theorem assign_at (h : (fields.map (·.1)).Nodup) (hk : k ∈ fields.map (·.1)) :
    ∃ a b, ∀ v, assign fields (k, v) = a ++ (k, v) :: b := by
  obtain ⟨⟨i, x⟩, hx, hi⟩ := List.mem_map.mp hk
  obtain rfl : i = k := hi
  obtain ⟨a, b, rfl⟩ := List.append_of_mem hx
  refine ⟨a, b, fun v => ?_⟩
  rw [List.map_append, List.map_cons, List.nodup_middle, List.nodup_cons, List.mem_append,
    not_or] at h
  have hother : ∀ l : Object, i ∉ l.map (·.1) →
      l.map (fun g => if g.1 = i then (i, v) else g) = l := fun l hl => by
    refine (List.map_congr_left fun g hg => if_neg fun he => hl ?_).trans (List.map_id l)
    exact he ▸ List.mem_map_of_mem hg
  rw [assign, if_pos hk, List.map_append, List.map_cons, hother a h.1.1, hother b h.1.2, if_pos rfl]

end

/-! ### Training values -/

/-- What is kept costs its fields, each in an object of its own. -/
theorem scalarsFrom_cost (limit : Int) (mapping : Object) (used : Nat)
    (h : scalarsFrom limit mapping used ≠ []) :
    ((used + ((scalarsFrom limit mapping used).map fun f => 2 + fieldSize f).sum : Nat) : Int) ≤
      limit := by
  fun_induction scalarsFrom limit mapping used with
  | case1 used => exact absurd rfl h
  | case2 key items rest used ih => exact ih h
  | case3 key fields rest used ih => exact ih h
  | case4 key value rest used _ _ cost hlimit => exact absurd rfl h
  | case5 key value rest used _ _ cost hlimit ih =>
    have hcost : cost = 2 + fieldSize (key, value) := objectSize_eq [(key, value)]
    rw [List.map_cons, List.sum_cons, ← hcost]
    by_cases hrest : scalarsFrom limit rest (used + cost) = []
    · rw [hrest]
      simpa using hlimit
    · have := ih hrest
      omega

theorem scalars_size (mapping : Object) (share : Nat) :
    objectSize (scalars mapping share) ≤ 2 + share := by
  have hcost := scalarsFrom_cost share (Value.sortFields mapping) 2
  have hsum : ∀ kept : Object, objectSize kept ≤ 2 + (kept.map fun f => 2 + fieldSize f).sum := by
    intro kept
    rw [objectSize_eq]
    induction kept with
    | nil => simp
    | cons f kept ih =>
      simp only [List.map_cons, List.sum_cons, List.length_cons] at ih ⊢
      omega
  have := hsum (scalars mapping share)
  by_cases hkept : scalars mapping share = []
  · rw [hkept, objectSize_eq]
    simp
  · have := hcost hkept
    unfold scalars at *
    omega

theorem trained_size (share : Nat) (item : Object) :
    objectSize (trained share item) ≤ objectSize (untrained item) + share := by
  unfold trained
  split
  · next training _ =>
    have hat : ∀ v, assign (untrained item) ("training", v) =
        summary ["participant", "resolved_revision", "num_examples", "coefficient"] item ++
          [("training", v)] := by
      simp [untrained, summary, assign]
    have hfield := objectSize_field "training" (.obj (scalars training share)) (.obj [])
      (summary ["participant", "resolved_revision", "num_examples", "coefficient"] item) []
    have hempty : metadataSize (.obj []) = 2 := objectSize_eq []
    have := scalars_size training share
    rw [← hat, ← hat, show assign (untrained item) ("training", .obj []) = untrained item by
      simp [untrained, summary, assign]] at hfield
    unfold objectSize at *
    omega
  · omega

/-- The entries together take at most a share each. -/
theorem trained_sum (share : Nat) (items : List Object) :
    (items.map fun item => objectSize (trained share item)).sum ≤
    (items.map fun item => objectSize (untrained item)).sum + items.length * share := by
  induction items with
  | nil => simp
  | cons item items ih =>
    have := trained_size share item
    simp only [List.map_cons, List.sum_cons, List.length_cons, Nat.succ_mul]
    omega

section
variable {full : Object} {items : List Object} {budget : Int}

theorem withSubmissions_eq (entry : Object → Object) : withSubmissions full items budget entry =
    countOnly full items budget ++
      [("submissions", .arr (items.map fun item => .obj (entry item)))] := by
  have hbase : "submissions" ∉ ([("evaluation", .null), ("complete_manifest", .str roundFullFile),
      ("submission_count", .int items.length)].foldl assign
        (full.filter fun f => f.1 ≠ "submissions")).map (·.1) := by
    intro h
    have h := (mem_assign h).resolve_right (by simp)
    have h := (mem_assign h).resolve_right (by simp)
    obtain ⟨f, hf, he⟩ := List.mem_map.mp ((mem_assign h).resolve_right (by simp))
    simp [he] at hf
  refine assign_new ?_ _
  unfold countOnly
  split
  · exact fun h => hbase ((mem_assign h).resolve_right (by simp))
  · exact hbase

/-- **Equal shares fit.** -/
theorem filled_fits (h : Fits budget (fullest full items budget)) :
    Fits budget (filled full items budget) := by
  unfold Fits at h ⊢
  obtain ⟨n, hn⟩ : ∃ n : Nat, share full items budget = n :=
    Int.eq_ofNat_of_zero_le (Int.ediv_nonneg (by omega) (by omega))
  have hall : ((items.length * n : Nat) : Int) ≤
      budget - objectSize (fullest full items budget) := by
    calc ((items.length * n : Nat) : Int) = items.length * (n : Int) := by push_cast; rfl
      _ ≤ max 1 (items.length : Int) * n := mul_le_mul_of_nonneg_right (le_max_right _ _) (by omega)
      _ ≤ _ := hn ▸ Int.mul_ediv_self_le (by omega)
  have harr : ∀ entry : Object → Object,
      metadataSize (.arr (items.map fun item => .obj (entry item))) =
      2 + (items.map fun item => objectSize (entry item)).sum + (items.length - 1) := by
    intro entry
    rw [metadataSize_arr, List.map_map, List.length_map]
    rfl
  have hsum := trained_sum n items
  have hsize := objectSize_field "submissions" (.arr (items.map fun item => .obj (trained n item)))
    (.arr (items.map fun item => .obj (untrained item))) (countOnly full items budget) []
  rw [harr, harr, ← withSubmissions_eq, ← withSubmissions_eq] at hsize
  unfold filled
  rw [hn]
  unfold fullest at hall
  omega

theorem boundedRound_bounds (h : submissions full = some items) (budget : Int) :
    ∃ r, boundedRound full budget = some r ∧ Bounds full items budget r := by
  unfold boundedRound
  rw [h]
  refine ⟨_, rfl, ?_⟩
  split_ifs with h0 h1 h2
  · exact .fullest h0 (filled_fits h0)
  · exact .weighted h0 h1
  · exact .named h0 h1 h2
  · exact .countOnly h0 h1 h2

theorem Bounds.fits {r : Object} (h : Bounds full items budget r)
    (hcount : Fits budget (Exchange.countOnly full items budget)) :
    Fits budget r := by
  cases h with
  | fullest _ hr => exact hr
  | weighted _ h | named _ _ h => exact h
  | countOnly _ _ _ => exact hcount

end

/-! ### The inline budget -/

/-- The inline files are a field of the metadata, unless another one of that name replaces them. -/
theorem inlineMetadata_at (extra : Object) :
    (∃ b, ∀ inline, inlineMetadata inline extra = ("hf2l_files", .obj inline) :: b) ∨
      ∀ inline other, inlineMetadata inline extra = inlineMetadata other extra := by
  suffices h : ∀ rest : Object,
      (∃ b, ∀ inline, extra.foldl assign (("hf2l_files", .obj inline) :: rest) =
      ("hf2l_files", .obj inline) :: b) ∨
        ∀ inline other, extra.foldl assign (("hf2l_files", .obj inline) :: rest) =
      extra.foldl assign (("hf2l_files", .obj other) :: rest) from h []
  induction extra with
  | nil => exact fun rest => Or.inl ⟨rest, fun _ => rfl⟩
  | cons f extra ih =>
    intro rest
    by_cases hf : f.1 = "hf2l_files"
    · refine Or.inr fun inline other => ?_
      simp only [List.foldl_cons, assign, List.map_cons, hf, List.mem_cons_self, if_true]
    · have hstep : ∀ inline, assign (("hf2l_files", .obj inline) :: rest) f =
        ("hf2l_files", .obj inline) :: assign rest f := by
        intro inline
        unfold assign
        simp only [List.map_cons, List.mem_cons, hf, false_or]
        rw [if_neg (Ne.symm hf)]
        split_ifs <;> rfl
      simp only [List.foldl_cons, hstep]
      exact ih (assign rest f)

/-- **Round summaries fit their budget.** For every round manifest and every budget the result is
the fullest level that fits, with training values by equal shares, and it fits if the plain count
does. So `_bound_round` raises only if even the count exceeds the rest of the inline budget. -/
theorem round_summaries_fit (full : Object) (items : List Object)
    (hitems : submissions full = some items) :
    (∀ budget, ∃ r, boundedRound full budget = some r ∧ Bounds full items budget r ∧
      (Fits budget (countOnly full items budget) → Fits budget r)) ∧
    ∀ inline extra e, (inline.map (·.1)).Nodup → inline.lookup roundFile = some (.obj full) →
      boundRound inline extra = .error e →
      e = .exceeds ∧
        ¬Fits (roundBudget inline extra) (countOnly full items (roundBudget inline extra)) := by
  refine ⟨fun budget => ?_, fun inline extra e hkeys hround h => ?_⟩
  · obtain ⟨r, hr, hbounds⟩ := boundedRound_bounds hitems budget
    exact ⟨r, hr, hbounds, hbounds.fits⟩
  obtain ⟨r, hr, hbounds⟩ := boundedRound_bounds hitems (roundBudget inline extra)
  unfold boundRound at h
  split at h
  · cases h
  simp only [hround, hr] at h
  split at h
  · refine ⟨(Except.error.inj h).symm, fun hcount => ?_⟩
    have hfits := hbounds.fits hcount
    unfold Fits roundBudget at hfits
    rcases inlineMetadata_at extra with ⟨b, hb⟩ | hsame
    · -- The bounded manifest takes the place of an empty one.
      obtain ⟨c, d, hat⟩ :=
        assign_at (k := roundFile) hkeys (List.mem_map.mpr ⟨_, Value.mem_of_lookup hround, rfl⟩)
      have hfiles := objectSize_field "hf2l_files" (.obj (assign inline (roundFile, .obj r)))
        (.obj (assign inline (roundFile, .obj []))) [] b
      have hmanifest := objectSize_field roundFile (.obj r) (.obj []) c d
      rw [← hat, ← hat] at hmanifest
      simp only [List.nil_append, ← hb] at hfiles
      unfold objectSize at *
      omega
    · rw [hsame _ inline] at hfits
      omega
  · cases h

/-- A round with one submission. -/
def exampleItem : Object :=
  [("participant", .str "a"), ("num_examples", .int 3), ("training", .obj [("loss", .int 1)])]

def exampleRound : Object := [("round", .int 1), ("submissions", .arr [.obj exampleItem])]

/-- It is bounded to any budget, and raises no error as the only inline file. -/
theorem round_summaries_fit_example : (∃ r, boundedRound exampleRound 200 = some r ∧ Fits 200 r) ∧
      ∀ e, boundRound [(roundFile, .obj exampleRound)] [] ≠ .error e := by
  obtain ⟨hbounded, hraises⟩ := round_summaries_fit exampleRound [exampleItem] rfl
  obtain ⟨r, hr, -, hfits⟩ := hbounded 200
  refine ⟨⟨r, hr, hfits (by decide +kernel)⟩, fun e he => ?_⟩
  exact (hraises [(roundFile, .obj exampleRound)] [] e (by decide) rfl he).2 (by decide +kernel)

end Hf2l.Backends.Exchange
