import Hf2l.Exchange.Domain.CanonicalJson

/-!
# `Hf2l.Exchange.Domain.CanonicalRoundTrip`: canonical JSON is exact

`spelled` writes the fields of an object in the order in which they stand. The encoder writes
`spelled` of the normal form of a value (`appendCanonical_eq`), or refuses a value that is
nested more than 64 levels deep. Since `spelled` is built by the reading rules of
`Lib.JsonText`, the decoder returns the normal form (`decode_spelled`), and everything else
follows: two values have one text iff they have one normal form.

`pythonDumps_eq` compares the text with the reference, one character and one key at a time.
-/

set_option autoImplicit false

namespace Hf2l.Exchange.Domain

open Lib Lib.Json Lib.Json.Value Lib.Checked

/-! ### The text of a value -/

section
variable (ascii : Bool)

mutual

/-- The text of a value, with its fields as they stand. -/
def spelled : Value → List Char
  | .null => ['n', 'u', 'l', 'l']
  | .bool true => ['t', 'r', 'u', 'e']
  | .bool false => ['f', 'a', 'l', 's', 'e']
  | .int n => decimal n
  | .real literal => literal.toList
  | .str s => appendString ascii s
  | .arr items => '[' :: joined (spelledItems items) ++ [']']
  | .obj fields => '{' :: joined (spelledFields fields) ++ ['}']

def spelledItems : List Value → List (List Char)
  | [] => []
  | v :: items => spelled v :: spelledItems items

def spelledFields : List (String × Value) → List (List Char)
  | [] => []
  | (k, v) :: fields => (appendString ascii k ++ ':' :: spelled v) :: spelledFields fields

end

/-- The text of a field. -/
def spelledField (f : String × Value) : List Char :=
  appendString ascii f.1 ++ ':' :: spelled ascii f.2

theorem spelled_arr (items : List Value) :
    spelled ascii (.arr items) = '[' :: joined (items.map (spelled ascii)) ++ [']'] := by
  have hitems : spelledItems ascii items = items.map (spelled ascii) := by
    induction items with
    | nil => rfl
    | cons v items ih => rw [spelledItems, ih, List.map_cons]
  rw [spelled, hitems]

theorem spelled_obj (fields : List (String × Value)) :
    spelled ascii (.obj fields) = '{' :: joined (fields.map (spelledField ascii)) ++ ['}'] := by
  have hfields : spelledFields ascii fields = fields.map (spelledField ascii) := by
    induction fields with
    | nil => rfl
    | cons f fields ih =>
      rw [spelledFields, ih, List.map_cons]
      rfl
  rw [spelled, hfields]

end

/-! ### Nesting -/

variable {m : Nat} {v : Value} {α : Type} {t : List Char} {c : Char}

theorem nestingItems_le {items : List Value} :
    nestingItems items ≤ m ↔ ∀ v ∈ items, v.nesting + 1 ≤ m := by
  induction items with
  | nil => simp [nestingItems]
  | cons v items ih => rw [nestingItems, Nat.max_le, ih, List.forall_mem_cons]

theorem nestingFields_le {fields : List (String × Value)} :
    nestingFields fields ≤ m ↔ ∀ f ∈ fields, f.2.nesting + 1 ≤ m := by
  induction fields with
  | nil => simp [nestingFields]
  | cons f fields ih => rw [nestingFields, Nat.max_le, ih, List.forall_mem_cons]

theorem nesting_norm_le (h : Plain v) : v.norm.nesting ≤ m ↔ v.nesting ≤ m := by
  induction h generalizing m with
  | null | bool b | int n | str s => rfl
  | @arr items _ ih =>
    rw [norm_arr, nesting, nesting, nestingItems_le, nestingItems_le, List.forall_mem_map]
    refine forall₂_congr fun v hv => ?_
    cases m with
    | zero => simp
    | succ m => simpa using ih v hv
  | @obj fields _ _ ih =>
    rw [norm_obj, nesting, nesting, nestingFields_le, nestingFields_le]
    constructor
    · intro hle f hf
      have hmem := (sortFields_perm (fields.map fun f => (f.1, f.2.norm))).mem_iff.mpr
        (List.mem_map_of_mem (f := fun f : String × Value => (f.1, f.2.norm)) hf)
      have hnorm := hle _ hmem
      cases m with
      | zero => simp at hnorm
      | succ m => exact Nat.succ_le_succ ((ih f hf).mp (Nat.le_of_succ_le_succ hnorm))
    · intro hle g hg
      obtain ⟨f, hf, rfl⟩ := List.mem_map.mp ((sortFields_perm _).subset hg)
      have hvalue := hle f hf
      cases m with
      | zero => simp at hvalue
      | succ m => exact Nat.succ_le_succ ((ih f hf).mpr (Nat.le_of_succ_le_succ hvalue))

/-! ### The encoder -/

theorem insertionSort_congr {r s : α → α → Prop} [DecidableRel r] [DecidableRel s]
    (h : ∀ a b, r a b ↔ s a b) (l : List α) : l.insertionSort r = l.insertionSort s := by
  have hrs : r = s := funext fun a => funext fun b => propext (h a b)
  subst hrs
  congr

/-- **Keys in the order of their bytes are in the order of their code points.** -/
theorem sortKeys_eq (fields : List (String × α)) : sortKeys fields = sortFields fields :=
  insertionSort_congr (fun f g => by rw [Utf8.bytes_lt_iff, not_lt]) fields

/-- The limit on a container, from the limits on its parts. -/
theorem levels_iff {xs : List α} {level : α → Nat} {n : Nat}
    (h : ∀ {m}, n ≤ m ↔ ∀ x ∈ xs, level x + 1 ≤ m) {k : Nat} :
    (k ≤ 64 ∧ ∀ x ∈ xs, k + 1 + level x ≤ 64) ↔ k + n ≤ 64 := by
  constructor
  · rintro ⟨hk, hxs⟩
    have hn : n ≤ 64 - k := h.mpr fun x hx => by
      have := hxs x hx
      omega
    omega
  · intro hn
    refine ⟨by omega, fun x hx => ?_⟩
    have hx := h.mp (le_refl n) x hx
    omega

/-- Results that all fail with one error, if they fail. -/
theorem sequence_map {β : Type} (xs : List α) (c : α → Prop) [DecidablePred c] (f : α → β)
    (e : String) :
    sequence (xs.map fun x => if c x then .ok (f x) else .error e) =
      if ∀ x ∈ xs, c x then .ok (xs.map f) else .error e := by
  unfold sequence
  induction xs with
  | nil => simp [pure, Except.pure]
  | cons x xs ih =>
    rw [List.map_cons, List.mapM_cons, ih]
    by_cases hx : c x
    · by_cases hxs : ∀ y ∈ xs, c y
      · rw [if_pos hxs, if_pos (List.forall_mem_cons.mpr ⟨hx, hxs⟩), if_pos hx]
        rfl
      · rw [if_neg hxs, if_neg fun h => hxs (List.forall_mem_cons.mp h).2, if_pos hx]
        rfl
    · rw [if_neg fun h => hx (List.forall_mem_cons.mp h).1, if_neg hx]
      rfl

/-- A container is written if it and all its parts are within the limit. -/
theorem limited_sequence (k : Nat) (xs : List α) (level : α → Nat) (text : α → List Char)
    (wrap : List (List Char) → List Char) :
    limited (2 * k) (do
      let parts ← sequence
          (xs.map fun x => if k + 1 + level x ≤ 64 then .ok (text x) else .error tooDeep)
      return wrap parts) =
      if k ≤ 64 ∧ ∀ x ∈ xs, k + 1 + level x ≤ 64 then .ok (wrap (xs.map text))
      else .error tooDeep := by
  rw [sequence_map xs (fun x => k + 1 + level x ≤ 64) text tooDeep]
  unfold limited
  by_cases hk : 2 * k > 128
  · rw [if_pos hk, if_neg fun h => by omega]
    rfl
  · by_cases hxs : ∀ x ∈ xs, k + 1 + level x ≤ 64
    · rw [if_neg hk, if_pos hxs, if_pos ⟨by omega, hxs⟩]
      rfl
    · rw [if_neg hk, if_neg hxs, if_neg fun h => hxs h.2]
      rfl

section
variable (pythonFloat : String → Option (List Char)) (ascii : Bool)

/-- The text of a value, if there are levels left for it. -/
def allowed (level : Nat) (v : Value) : Except String (List Char) :=
  if level + v.nesting ≤ 64 then .ok (spelled ascii v.norm) else .error tooDeep

variable {k : Nat}

theorem limited_allowed {v : Value} {text : List Char} (hn : v.nesting = 0)
    (ht : spelled ascii v.norm = text) : limited (2 * k) (pure text) = allowed ascii k v := by
  unfold limited allowed
  rw [hn, ht]
  by_cases hk : 2 * k > 128
  · rw [if_pos hk, if_neg (by omega)]
    rfl
  · rw [if_neg hk, if_pos (by omega)]
    rfl

/-- A value inside an interface is one level below. -/
theorem interface_allowed {v : Value}
    (ih : appendCanonical pythonFloat ascii (2 * (k + 1)) v = allowed ascii (k + 1) v) :
    limited (2 * k + 1) (if isNil v then pure ['n', 'u', 'l', 'l']
      else appendCanonical pythonFloat ascii (2 * k + 1 + 1) v) = allowed ascii (k + 1) v := by
  unfold limited
  by_cases hk : 2 * k + 1 > 128
  · rw [if_pos hk, allowed, if_neg (by omega)]
    rfl
  · rw [if_neg hk]
    by_cases hnil : isNil v
    · rw [if_pos hnil]
      cases v with
      | null =>
        rw [allowed, if_pos (by simp only [nesting]; omega)]
        rfl
      | _ => cases hnil
    · rw [if_neg hnil]
      exact ih

theorem appendItems_eq {items : List Value}
    (ih : ∀ v ∈ items, appendCanonical pythonFloat ascii (2 * (k + 1)) v =
      allowed ascii (k + 1) v) :
    appendItems pythonFloat ascii (2 * k + 1) items = items.map (allowed ascii (k + 1)) := by
  induction items with
  | nil => rfl
  | cons v items ihitems =>
    rw [appendItems, List.map_cons, interface_allowed _ _ (ih v List.mem_cons_self),
      ihitems fun w hw => ih w (List.mem_cons_of_mem v hw)]

theorem appendFields_eq {fields : List (String × Value)}
    (ih : ∀ f ∈ fields, appendCanonical pythonFloat ascii (2 * (k + 1)) f.2 =
      allowed ascii (k + 1) f.2) :
    appendFields pythonFloat ascii (2 * k + 1) fields = fields.map fun f =>
      (f.1, allowed ascii (k + 1) f.2) := by
  induction fields with
  | nil => rfl
  | cons f fields ihfields =>
    rw [appendFields, List.map_cons, interface_allowed _ _ (ih f List.mem_cons_self),
      ihfields fun g hg => ih g (List.mem_cons_of_mem f hg)]

/-- The text of a field, if there are levels left for its value. -/
theorem allowed_field (level : Nat) (f : String × Value) :
    (do
        let t ← allowed ascii level f.2
        return appendString ascii f.1 ++ ':' :: t : Except String (List Char)) =
      if level + f.2.nesting ≤ 64 then .ok (spelledField ascii (f.1, norm f.2))
      else .error tooDeep := by
  unfold allowed
  split <;> rfl

/-- **The encoder writes the text of the normal form,** or refuses what is nested too deep. -/
theorem appendCanonical_eq {v : Value} (h : Plain v) (k : Nat) :
    appendCanonical pythonFloat ascii (2 * k) v = allowed ascii k v := by
  induction h generalizing k with
  | null | int n | str s => exact limited_allowed ascii rfl rfl
  | bool b => cases b <;> exact limited_allowed ascii rfl rfl
  | @arr items _ ih =>
    rw [appendCanonical, appendItems_eq pythonFloat ascii fun v hv => ih v hv (k + 1)]
    refine (limited_sequence k items (fun v => v.nesting)
      (fun v => spelled ascii v.norm) _).trans ?_
    have hlevels : (k ≤ 64 ∧ ∀ v ∈ items, k + 1 + v.nesting ≤ 64) ↔ k + nesting (.arr items) ≤ 64 :=
      levels_iff nestingItems_le
    rw [allowed, norm_arr, spelled_arr, List.map_map]
    simp only [hlevels]
    rfl
  | @obj fields hkeys _ ih =>
    rw [appendCanonical, appendFields_eq pythonFloat ascii fun f hf => ih f hf (k + 1), sortKeys_eq,
      ← map_sortFields, List.map_map]
    have hparts : ((sortFields fields).map ((fun x : String × Except String (List Char) => do
          let t ← x.2
          return appendString ascii x.1 ++ ':' :: t) ∘ fun f => (f.1, allowed ascii (k + 1) f.2))) =
        (sortFields fields).map fun f => if k + 1 + f.2.nesting ≤ 64 then
          .ok (spelledField ascii (f.1, norm f.2)) else .error tooDeep :=
      List.map_congr_left fun f _ => allowed_field ascii (k + 1) f
    rw [hparts]
    refine (limited_sequence k (sortFields fields) (fun f => f.2.nesting)
      (fun f => spelledField ascii (f.1, norm f.2)) _).trans ?_
    have hlevels : (k ≤ 64 ∧ ∀ f ∈ sortFields fields, k + 1 + f.2.nesting ≤ 64) ↔
        k + nesting (.obj fields) ≤ 64 := by
      simp only [(sortFields_perm fields).mem_iff]
      exact levels_iff nestingFields_le
    rw [allowed, norm_obj, ← map_sortFields, spelled_obj, List.map_map]
    simp only [hlevels]
    rfl

end

/-! ### The decoder -/

/-- Every rune is written in one of the ways in which JSON spells it. -/
theorem appendRune_spelling (ascii : Bool) (r : Char) : Spelling r (appendRune ascii r) := by
  unfold appendRune
  by_cases hquote : r = '"'
  · rw [if_pos hquote, hquote]
    exact .short (by decide) fun _ => rfl
  by_cases hslash : r = '\\'
  · rw [if_neg hquote, if_pos hslash, hslash]
    exact .short (by decide) fun _ => rfl
  rw [if_neg hquote, if_neg hslash]
  by_cases hb : r = '\x08'
  · rw [if_pos hb, hb]
    exact .short (by decide) fun _ => rfl
  by_cases hf : r = '\x0c'
  · rw [if_neg hb, if_pos hf, hf]
    exact .short (by decide) fun _ => rfl
  by_cases hn : r = '\n'
  · rw [if_neg hb, if_neg hf, if_pos hn, hn]
    exact .short (by decide) fun _ => rfl
  by_cases hr : r = '\r'
  · rw [if_neg hb, if_neg hf, if_neg hn, if_pos hr, hr]
    exact .short (by decide) fun _ => rfl
  by_cases ht : r = '\t'
  · rw [if_neg hb, if_neg hf, if_neg hn, if_neg hr, if_pos ht, ht]
    exact .short (by decide) fun _ => rfl
  rw [if_neg hb, if_neg hf, if_neg hn, if_neg hr, if_neg ht]
  split
  · exact .unit (by omega)
  · split
    · split
      · exact .pair (by omega)
      · exact .unit (by omega)
    · exact .plain hquote hslash (by omega)

section
variable (ascii : Bool)

/-- **The text of a value is read back.** -/
theorem spelled_reads {v : Value} (h : Plain v) {n : Nat} (hn : v.nesting < n) :
    Reads (value n) (spelled ascii v) v := by
  induction h generalizing n with
  | null => exact reads_null n
  | bool b =>
    cases b with
    | false => exact reads_false n
    | true => exact reads_true n
  | int k => exact reads_int n k
  | str s => exact reads_str (appendRune_spelling ascii) n s
  | @arr items _ ih =>
    cases n with
    | zero => omega
    | succ n =>
      rw [spelled_arr]
      refine reads_arr
        (List.forall₂_map_left_iff.mpr (List.forall₂_same.mpr fun v hv => ih v hv ?_))
      have hv := nestingItems_le.mp (le_refl _) v hv
      simp only [nesting] at hn
      omega
  | @obj fields hkeys _ ih =>
    cases n with
    | zero => omega
    | succ n =>
      rw [spelled_obj]
      refine reads_obj (List.forall₂_map_left_iff.mpr (List.forall₂_same.mpr fun f hf => ?_)) hkeys
      have hf' := nestingFields_le.mp (le_refl _) f hf
      simp only [nesting] at hn
      exact reads_member (appendRune_spelling ascii) f.1 (ih f hf (by omega))

end

/-! ### Surrogates -/

/-- The text does not change what `validSurrogates` says of the rest. -/
def Passes (inString : Bool) (t : List Char) : Prop :=
  ∀ rest, validSurrogates inString (t ++ rest) = validSurrogates inString rest

theorem Passes.append {inString : Bool} {u : List Char} (ht : Passes inString t)
    (hu : Passes inString u) :
    Passes inString (t ++ u) := by
  intro rest
  rw [List.append_assoc, ht, hu]

theorem passes_nil (inString : Bool) : Passes inString [] := fun _ => rfl

theorem validSurrogates_quote (inString : Bool) (rest : List Char) :
    validSurrogates inString ('"' :: rest) = validSurrogates (!inString) rest := by
  conv_lhs => rw [validSurrogates.eq_def]
  simp

/-- A character that is no quote and no backslash, or one outside of a string. -/
theorem passes_plain {inString : Bool} (h : c ≠ '"') (hslash : inString = false ∨ c ≠ '\\') :
    Passes inString [c] := by
  intro rest
  rw [List.singleton_append]
  conv_lhs => rw [validSurrogates.eq_def]
  simp only [if_neg h, if_pos hslash]

theorem passes_outside (h : c ≠ '"') : Passes false [c] := passes_plain h (Or.inl rfl)

theorem passes_all (h : ∀ c ∈ t, c ≠ '"') : Passes false t := by
  induction t with
  | nil => exact passes_nil false
  | cons c t ih =>
    exact (passes_outside (h c List.mem_cons_self)).append
      (ih fun d hd => h d (List.mem_cons_of_mem c hd))

theorem hexDigits_split (unit : Nat) :
    ∃ a b c d, hexDigits unit = [a, b, c, d] ∧
      (unit < 65536 → hex4 [a, b, c, d] = some (unit, [])) := by
  refine ⟨_, _, _, _, rfl, fun h => ?_⟩
  have hread := hex4_hexDigits h []
  rwa [List.append_nil] at hread

/-- An escape that is no half of a surrogate pair. -/
theorem passes_unit {unit : Nat} (hlt : unit < 65536) (hhigh : ¬ isHigh unit = true)
    (hlow : ¬ isLow unit = true) :
    Passes true (unicodeEscape unit) := by
  intro rest
  obtain ⟨a, b, c, d, he, hread⟩ := hexDigits_split unit
  rw [unicodeEscape, he]
  conv_lhs => rw [validSurrogates.eq_def]
  simp [hread hlt, hhigh, hlow]

theorem passes_pair {high low : Nat} (hhigh : isHigh high = true) (hlow : isLow low = true) :
    Passes true (unicodeEscape high ++ unicodeEscape low) := by
  intro rest
  have hhigh' := (isHigh_iff high).mp hhigh
  have hlow' := (isLow_iff low).mp hlow
  obtain ⟨a, b, c, d, he, hread⟩ := hexDigits_split high
  obtain ⟨a', b', c', d', he', hread'⟩ := hexDigits_split low
  rw [unicodeEscape, unicodeEscape, he, he']
  conv_lhs => rw [validSurrogates.eq_def]
  simp [hread (by omega), hread' (by omega), hhigh, hlow]

theorem Spelling.passes (h : Spelling c t) : Passes true t := by
  cases h with
  | plain hquote hslash _ => exact passes_plain hquote (Or.inr hslash)
  | short hunicode _ =>
    intro rest
    conv_lhs => rw [validSurrogates.eq_def]
    simp [hunicode]
  | unit hle => exact passes_unit (by omega) (not_surrogate c).1 (not_surrogate c).2
  | pair hlt => exact passes_pair (combine_halves hlt).1 (combine_halves hlt).2.1

theorem passes_string (ascii : Bool) (s : String) : Passes false (appendString ascii s) := by
  have hbody : ∀ cs : List Char, Passes true (cs.flatMap (appendRune ascii)) := by
    intro cs
    induction cs with
    | nil => exact passes_nil true
    | cons c cs ih =>
      rw [List.flatMap_cons]
      exact (Spelling.passes (appendRune_spelling ascii c)).append ih
  intro rest
  -- The quotes enter and leave the string.
  rw [appendString, quoted_append, validSurrogates_quote]
  show validSurrogates true _ = _
  rw [hbody, validSurrogates_quote]
  rfl

theorem passes_joined {ts : List (List Char)} (h : ∀ t ∈ ts, Passes false t) :
    Passes false (joined ts) := by
  induction ts with
  | nil => exact passes_nil false
  | cons t ts ih =>
    have ht := h t List.mem_cons_self
    have hts := ih fun u hu => h u (List.mem_cons_of_mem t hu)
    cases ts with
    | nil => exact ht
    | cons u ts =>
      have he : joined (t :: u :: ts) = t ++ ([','] ++ joined (u :: ts)) := rfl
      rw [he]
      exact ht.append ((passes_outside (by decide)).append hts)

theorem passes_decimal (n : Int) : Passes false (decimal n) := by
  have hnat : ∀ m, ∀ c ∈ decimalNat m, c ≠ '"' := by
    intro m c hc
    obtain ⟨d, ds, he, -, hdigits⟩ := decimalNat_cons m
    exact ne_of_numeric (Or.inr (hdigits c (he ▸ hc))) (by decide) (by decide)
  unfold decimal
  split
  · exact (passes_outside (by decide)).append (passes_all (hnat _))
  · exact passes_all (hnat _)

theorem spelled_passes (ascii : Bool) (h : Plain v) : Passes false (spelled ascii v) := by
  induction h with
  | null => exact passes_all (by simp [spelled])
  | bool b => cases b <;> exact passes_all (by simp [spelled])
  | int n => exact passes_decimal n
  | str s => exact passes_string ascii s
  | arr _ ih =>
    rw [spelled_arr]
    refine Passes.append (t := '[' :: _) ((passes_outside (c := '[') (by decide)).append ?_)
      (passes_outside (by decide))
    refine passes_joined fun t ht => ?_
    obtain ⟨v, hv, rfl⟩ := List.mem_map.mp ht
    exact ih v hv
  | obj _ _ ih =>
    rw [spelled_obj]
    refine Passes.append (t := '{' :: _) ((passes_outside (c := '{') (by decide)).append ?_)
      (passes_outside (by decide))
    refine passes_joined fun t ht => ?_
    obtain ⟨f, hf, rfl⟩ := List.mem_map.mp ht
    exact (passes_string ascii f.1).append
      ((passes_outside (c := ':') (by decide)).append (ih f hf))

/-- The bytes of a text are valid UTF-8, and decode to the text. -/
theorem fromUTF8_toBytes (text : List Char) :
    String.fromUTF8? (toBytes text) = some (String.ofList text) := by
  unfold String.fromUTF8? toBytes
  rw [dif_pos (String.ofList text).isValidUTF8]
  rfl

/-- **The decoder returns the value whose text it is given.** -/
theorem decode_spelled (ascii : Bool) (h : Plain v) (hn : v.nesting ≤ 64) :
    decodeJSON (toBytes (spelled ascii v)) = .ok v := by
  have hread := spelled_reads ascii h (n := maxNestingDepth) (Nat.lt_of_le_of_lt hn (by decide))
  have hsurrogates := spelled_passes ascii h []
  have hskip := hread.skip []
  have hvalue := hread.reads [] ends_nil
  rw [List.append_nil] at hsurrogates hskip hvalue
  simp only [decodeJSON, fromUTF8_toBytes, String.toList_ofList, hsurrogates, hskip, hvalue]
  rfl

/-! ### The reference -/

/-- The halves as the reference computes them. -/
theorem halves_eq {n : Nat} (h : n < 0x100000) :
    0xd800 ||| (n >>> 10 &&& 0x3ff) = 0xd800 + n / 0x400 ∧
      0xdc00 ||| (n &&& 0x3ff) = 0xdc00 + n % 0x400 := by
  have hmask : ∀ m, m &&& 0x3ff = m % 0x400 := fun m => Nat.and_two_pow_sub_one_eq_mod m 10
  rw [hmask, hmask, Nat.shiftRight_eq_div_pow]
  have hhigh := Nat.two_pow_add_eq_or_of_lt (i := 10) (b := n / 2 ^ 10 % 0x400)
    (Nat.mod_lt _ (by decide)) 54
  have hlow := Nat.two_pow_add_eq_or_of_lt (i := 10) (b := n % 0x400) (Nat.mod_lt _ (by decide)) 55
  norm_num at hhigh hlow ⊢
  omega

/-- A character that is not escaped by name. -/
theorem pythonEscape_other
    (hnamed : c ≠ '\\' ∧ c ≠ '"' ∧ c ≠ '\x08' ∧ c ≠ '\x0c' ∧ c ≠ '\n' ∧ c ≠ '\r' ∧ c ≠ '\t') :
    pythonEscape c = appendRune true c := by
  obtain ⟨hslash, hquote, hb, hf, hn, hr, ht⟩ := hnamed
  have hprintable : (' ' ≤ c ∧ c ≤ '~') ↔ 32 ≤ c.toNat ∧ c.toNat ≤ 126 := Iff.rfl
  unfold pythonEscape escapeDct appendRune
  simp only [hprintable, hquote, hslash, hb, hf, hn, hr, ht, if_false, false_or, true_and]
  by_cases hcontrol : c.toNat < 32
  · rw [if_pos (by omega), if_pos hcontrol, if_pos hcontrol]
  · by_cases hascii : c.toNat ≥ 127
    · rw [if_pos (by omega), if_neg hcontrol, if_neg hcontrol, if_pos hascii]
      by_cases hplane : c.toNat < 0x10000
      · rw [if_pos hplane, if_neg (by omega)]
      · have hmax := toNat_lt c
        obtain ⟨hhigh, hlow⟩ := halves_eq (n := c.toNat - 0x10000) (by omega)
        rw [if_neg hplane, if_pos (by omega), hhigh, hlow]
        rfl
    · rw [if_neg (by omega), if_neg hcontrol, if_neg hascii]

/-- **The two programs escape a character alike.** -/
theorem pythonEscape_eq (c : Char) : pythonEscape c = appendRune true c := by
  by_cases hnamed : c = '\\' ∨ c = '"' ∨ c = '\x08' ∨ c = '\x0c' ∨ c = '\n' ∨ c = '\r' ∨ c = '\t'
  · rcases hnamed with rfl | rfl | rfl | rfl | rfl | rfl | rfl <;> decide
  · simp only [not_or] at hnamed
    exact pythonEscape_other hnamed

theorem pythonString_eq (s : String) : quoted pythonEscape s = appendString true s := by
  rw [appendString, funext pythonEscape_eq]

/-- No integer of the value is too long for Python to spell. -/
inductive Short : Value → Prop where
  | null : Short .null
  | bool (b : Bool) : Short (.bool b)
  | int {n : Int} : (Nat.digits 10 n.natAbs).length ≤ maxStrDigits → Short (.int n)
  | str (s : String) : Short (.str s)
  | arr {items : List Value} : (∀ v ∈ items, Short v) → Short (.arr items)
  | obj {fields : List (String × Value)} : (∀ f ∈ fields, Short f.2) → Short (.obj fields)

section
variable (floatRepr : String → List Char)

theorem pythonItems_eq {items : List Value}
    (ih : ∀ v ∈ items, pythonDumps floatRepr v = .ok (spelled true v.norm)) :
    pythonItems floatRepr items = .ok (items.map fun v => spelled true v.norm) := by
  induction items with
  | nil => rfl
  | cons v items ihitems =>
    rw [pythonItems, ih v List.mem_cons_self, ihitems fun w hw => ih w (List.mem_cons_of_mem v hw)]
    rfl

theorem pythonFields_eq {fields : List (String × Value)}
    (ih : ∀ f ∈ fields, pythonDumps floatRepr f.2 = .ok (spelled true f.2.norm)) :
    pythonFields floatRepr fields = .ok (fields.map fun f => (f.1, spelled true f.2.norm)) := by
  induction fields with
  | nil => rfl
  | cons f fields ihfields =>
    rw [pythonFields, ih f List.mem_cons_self,
      ihfields fun g hg => ih g (List.mem_cons_of_mem f hg)]
    rfl

/-- **The reference writes the text of the normal form,** where it writes one. -/
theorem pythonDumps_eq {v : Value} (h : Short v) :
    pythonDumps floatRepr v = .ok (spelled true v.norm) := by
  induction h with
  | null => rfl
  | bool b => cases b <;> rfl
  | int h => exact if_neg (Nat.not_lt.mpr h)
  | str s => exact congrArg Except.ok (pythonString_eq s)
  | arr _ ih =>
    rw [pythonDumps, pythonItems_eq floatRepr ih, norm_arr, spelled_arr, List.map_map]
    rfl
  | obj _ ih =>
    rw [pythonDumps, pythonFields_eq floatRepr ih, norm_obj, spelled_obj, ← map_sortFields]
    simp only [bind, Except.bind, ← map_sortFields fun v : Value => spelled true v.norm,
      List.map_map, pythonString_eq, Function.comp_def, spelledField]
    rfl

end

/-! ### The encoding -/

section
variable (pythonFloat : String → Option (List Char)) (ascii : Bool)

theorem canonical_eq {v : Value} (h : Plain v) : canonical pythonFloat ascii v =
      if v.nesting ≤ 64 then .ok (toBytes (spelled ascii v.norm)) else .error tooDeep := by
  unfold canonical
  rw [show (0 : Nat) = 2 * 0 from rfl, appendCanonical_eq pythonFloat ascii h 0, allowed,
    Nat.zero_add]
  split <;> rfl

/-- **Canonical JSON is exact.** Two values that are nested no deeper than the encoder allows
have the same bytes iff they are the same value; the decoder reads the value back, and its
canonical bytes are those it was read from; in ASCII the bytes are those of the reference, if
no integer is too long for it. -/
theorem canonical_json_exact (floatRepr : String → List Char) {v w : Value} (hv : Plain v)
    (hw : Plain w) (hvn : v.nesting ≤ 64) (hwn : w.nesting ≤ 64) :
    ∃ a b, canonical pythonFloat ascii v = .ok a ∧ canonical pythonFloat ascii w = .ok b ∧
      (a = b ↔ same v w = true) ∧
      (∃ u, decodeJSON a = .ok u ∧ same u v = true ∧ canonical pythonFloat ascii u = .ok a) ∧
      (ascii = true → Short v → ∃ text, pythonDumps floatRepr v = .ok text ∧ a = toBytes text) := by
  have hdecode : ∀ {x : Value}, Plain x → x.nesting ≤ 64 →
      decodeJSON (toBytes (spelled ascii x.norm)) = .ok x.norm := fun hx hn =>
    decode_spelled ascii hx.norm ((nesting_norm_le hx).mpr hn)
  refine ⟨toBytes (spelled ascii v.norm), toBytes (spelled ascii w.norm), ?_, ?_, ?_,
    ⟨v.norm, hdecode hv hvn, ?_, ?_⟩, ?_⟩
  · rw [canonical_eq pythonFloat ascii hv, if_pos hvn]
  · rw [canonical_eq pythonFloat ascii hw, if_pos hwn]
  · rw [same_iff_norm hv hw]
    constructor
    · -- Equal bytes are decoded to equal values.
      intro he
      have hboth := hdecode hv hvn
      rw [he, hdecode hw hwn] at hboth
      exact (Except.ok.inj hboth).symm
    · intro he
      rw [he]
  · rw [same_iff_norm hv.norm hv, norm_norm hv]
  · rw [canonical_eq pythonFloat ascii hv.norm, if_pos ((nesting_norm_le hv).mpr hvn), norm_norm hv]
  · intro hascii hshort
    exact ⟨_, pythonDumps_eq floatRepr hshort, by rw [hascii]⟩

end

/-- An object with a key outside of ASCII, a control character and a character that takes a
surrogate pair. -/
def sample : Value := .obj [("é", .arr [.null, .int (-5)]), ("a", .str "\n\x7f😀")]

/-- The same value, with its fields in another order. -/
def sampleSorted : Value := .obj [("a", .str "\n\x7f😀"), ("é", .arr [.null, .int (-5)])]

theorem canonical_json_exact_sample :
    Short sample ∧ pythonDumps String.toList sample =
      .ok "\x7b\"a\":\"\\n\\u007f\\ud83d\\ude00\",\"\\u00e9\":[null,-5]\x7d".toList ∧
    ∃ a b, canonical (fun _ => none) true sample = .ok a ∧
      canonical (fun _ => none) true sampleSorted = .ok b ∧
      (a = b ↔ same sample sampleSorted = true) ∧
      (∃ u, decodeJSON a = .ok u ∧ same u sample = true ∧
      canonical (fun _ => none) true u = .ok a) ∧
      (true = true → Short sample → ∃ text, pythonDumps String.toList sample = .ok text ∧
      a = toBytes text) := by
  have hvalues : Plain (.arr [.null, .int (-5)]) :=
    .arr (List.forall_mem_cons.mpr ⟨.null, List.forall_mem_singleton.mpr (.int _)⟩)
  have hsample : Plain sample :=
    .obj (by decide) (List.forall_mem_cons.mpr ⟨hvalues, List.forall_mem_singleton.mpr (.str _)⟩)
  have hsorted : Plain sampleSorted :=
    .obj (by decide) (List.forall_mem_cons.mpr ⟨.str _, List.forall_mem_singleton.mpr hvalues⟩)
  have hfive : Short (.int (-5)) := .int (by norm_num [maxStrDigits])
  have hshort : Short sample := .obj (List.forall_mem_cons.mpr
    ⟨.arr (List.forall_mem_cons.mpr ⟨.null, List.forall_mem_singleton.mpr hfive⟩),
      List.forall_mem_singleton.mpr (.str _)⟩)
  exact ⟨hshort, by decide +kernel,
    canonical_json_exact (fun _ => none) true String.toList hsample hsorted (by decide) (by decide)⟩

/-- **An integer of 4301 digits** has canonical bytes, and Python refuses to spell it. -/
theorem long_integer_refused :
    canonical (fun _ => none) true (.int (10 ^ 4300)) = .ok (toBytes (decimal (10 ^ 4300))) ∧
      pythonDumps String.toList (.int (10 ^ 4300)) = .error tooManyDigits := by
  have hlong : 4300 < (Nat.digits 10 (10 ^ 4300 : Int).natAbs).length := by
    rw [Nat.lt_digits_length_iff (by decide), Int.natAbs_pow, show Int.natAbs 10 = 10 from rfl]
  -- The number itself is never evaluated.
  generalize (10 ^ 4300 : Int) = n at hlong ⊢
  exact ⟨rfl, if_pos hlong⟩

end Hf2l.Exchange.Domain
