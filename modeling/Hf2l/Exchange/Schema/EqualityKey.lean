import Mathlib.Data.Rat.Defs
import Hf2l.Exchange.Domain.CanonicalRoundTrip

/-!
# `Hf2l.Exchange.Schema.EqualityKey`: equality of JSON values by a key

`internal/schema/numeric.go`. The keywords `const`, `enum` and `uniqueItems` compare values by a
string, `equalityKey`, so that duplicates are found with a map. What they have to decide is the
equality of the Python reference: `equal`.

A number that is spelled with a fraction or an exponent is loaded as a float. `rounding` is its
exact value; a literal that overflows is refused before a key is asked for. `quote` is
`strconv.Quote`, with its table of printable characters left open.

A key ends where a comma follows it, so that the keys of items and fields can be told apart when
they stand one after another (`equalityKey_append_iff`). -/

set_option autoImplicit false

namespace Hf2l.Exchange.Schema

open Lib Lib.Json Lib.Json.Value
open Exchange.Domain (sortKeys sortKeys_eq)

/-- `Rat.RatString`. -/
def ratString (q : ℚ) : List Char :=
  if q.den = 1 then decimal q.num else decimal q.num ++ '/' :: decimal q.den

section
variable (rounding : String → ℚ)

/-- `number`, as its exact value. -/
def number : Value → Option ℚ
  | .int n => some n
  | .real literal => some (rounding literal)
  | _ => none

mutual

/-- The equality of the reference: numbers by their exact values, and not equal to booleans; arrays
item by item; objects without regard to the order of their fields. -/
def equal : Value → Value → Bool
  | .null, .null => true
  | .bool a, .bool b => a == b
  | .str a, .str b => a == b
  | .arr xs, .arr ys => equalItems xs ys
  | .obj xs, .obj ys => xs.length == ys.length && equalFields xs ys
  | .int m, w => some (m : ℚ) == number rounding w
  | .real l, w => some (rounding l) == number rounding w
  | _, _ => false

def equalItems : List Value → List Value → Bool
  | [], [] => true
  | x :: xs, y :: ys => equal x y && equalItems xs ys
  | _, _ => false

/-- Every field of the first object is in the second, with an equal value. -/
def equalFields : List (String × Value) → List (String × Value) → Bool
  | [], _ => true
  | (k, v) :: xs, ys =>
    (match ys.lookup k with
      | some w => equal v w
      | none => false) && equalFields xs ys

end

/-- The characters that `strconv` escapes by a letter. -/
def namedEscapes : List (Char × Char) :=
  [('\x07', 'a'), ('\x08', 'b'), ('\x0c', 'f'), ('\n', 'n'), ('\r', 'r'), ('\t', 't'),
    ('\x0b', 'v')]

/-- `appendEscapedRune`, as `strconv.Quote` calls it. -/
def escapedRune (isPrint : Char → Bool) (r : Char) : List Char :=
  if r = '"' ∨ r = '\\' then ['\\', r]
  else if isPrint r then [r]
  else
    match namedEscapes.lookup r with
    | some letter => ['\\', letter]
    | none =>
      if r < ' ' ∨ r = '\x7f' then '\\' :: 'x' :: [hexDigit (r.toNat / 16), hexDigit (r.toNat % 16)]
      else if r.toNat < 0x10000 then '\\' :: 'u' :: hexDigits r.toNat
      else '\\' :: 'U' :: hexDigits (r.toNat / 0x10000) ++ hexDigits (r.toNat % 0x10000)

section
variable (isPrint : Char → Bool)

/-- `strconv.Quote`. -/
def quote (s : String) : List Char := '"' :: s.toList.flatMap (escapedRune isPrint) ++ ['"']

/-- The fields of an object, in order. -/
def joinFields (fields : List (String × List Char)) : List Char :=
  fields.flatMap fun f => quote isPrint f.1 ++ ':' :: f.2 ++ [',']

mutual

/-- `equalityKey`. -/
def equalityKey : Value → List Char
  | .null => ['z']
  | .bool true => ['b', '1']
  | .bool false => ['b', '0']
  | .str s => 's' :: quote isPrint s
  | .arr items => 'a' :: '[' :: keyItems items ++ [']']
  | .obj fields => 'o' :: '{' :: joinFields isPrint (sortKeys (keyFields fields)) ++ ['}']
  | .int n => 'n' :: ratString n
  | .real literal => 'n' :: ratString (rounding literal)

def keyItems : List Value → List Char
  | [] => []
  | v :: items => equalityKey v ++ ',' :: keyItems items

def keyFields : List (String × Value) → List (String × List Char)
  | [] => []
  | (k, v) :: fields => (k, equalityKey v) :: keyFields fields

end

/-! ### The keywords -/

/-- `const`. -/
def constHolds (constant value : Value) : Bool :=
  equalityKey rounding isPrint value == equalityKey rounding isPrint constant

/-- `enum`. -/
def enumHolds (enumeration : List Value) (value : Value) : Bool :=
  (enumeration.map (equalityKey rounding isPrint)).contains (equalityKey rounding isPrint value)

/-- The loop of `uniqueItems`, with the keys seen so far. -/
def uniqueFrom (seen : List (List Char)) : List Value → Bool
  | [] => true
  | item :: items =>
    let key := equalityKey rounding isPrint item
    if seen.contains key then false else uniqueFrom (key :: seen) items

/-- `uniqueItems`. -/
def uniqueHolds (items : List Value) : Bool := uniqueFrom rounding isPrint [] items

end

end

/-! ### Numbers as texts -/

/-- What follows a key: nothing, or a comma. -/
def Stops (rest : List Char) : Prop := ∀ c, rest.head? = some c → c = ','

theorem stops_nil : Stops [] := by
  intro c h
  cases h

theorem stops_comma (rest : List Char) : Stops (',' :: rest) := by
  intro c h
  cases h
  rfl

theorem decimal_append_inj {m n : Int} {r u : List Char} (hr : Ends r) (hu : Ends u)
    (h : decimal m ++ r = decimal n ++ u) :
    m = n ∧ r = u := by
  have hread := number_decimal m hr
  rw [h, number_decimal n hu] at hread
  simp only [Option.some.injEq, Prod.mk.injEq, Value.int.injEq] at hread
  exact ⟨hread.1.symm, hread.2.symm⟩

theorem Stops.ends {r : List Char} (h : Stops r) : Ends r := by
  intro c hc
  rw [h c hc]
  decide

/-- The text of a number, up to the comma after it, determines the number. -/
theorem ratString_append_iff {p q : ℚ} {r u : List Char} (hr : Stops r) (hu : Stops u) :
    ratString p ++ r = ratString q ++ u ↔ p = q ∧ r = u := by
  have hslash : ∀ t : List Char, Ends ('/' :: t) := fun t => ends_cons (by decide)
  have hnot : ∀ {x t : List Char}, Stops x → x ≠ '/' :: t := by
    rintro x t hx rfl
    exact absurd (hx '/' rfl) (by decide)
  constructor
  · intro h
    unfold ratString at h
    split at h
    · case isTrue hp =>
      split at h
      · case isTrue hq =>
        obtain ⟨hnum, hrest⟩ := decimal_append_inj hr.ends hu.ends h
        exact ⟨Rat.ext hnum (hp.trans hq.symm), hrest⟩
      · case isFalse hq =>
        rw [List.append_assoc, List.cons_append] at h
        exact absurd (decimal_append_inj hr.ends (hslash _) h).2 (hnot hr)
    · case isFalse hp =>
      split at h
      · case isTrue hq =>
        rw [List.append_assoc, List.cons_append] at h
        exact absurd (decimal_append_inj (hslash _) hu.ends h).2.symm (hnot hu)
      · case isFalse hq =>
        rw [List.append_assoc, List.cons_append, List.append_assoc, List.cons_append] at h
        obtain ⟨hnum, hrest⟩ := decimal_append_inj (hslash _) (hslash _) h
        obtain ⟨hden, hrest⟩ := decimal_append_inj hr.ends hu.ends (List.cons.inj hrest).2
        exact ⟨Rat.ext hnum (by exact_mod_cast hden), hrest⟩
  · rintro ⟨rfl, rfl⟩
    rfl

/-! ### Quoted strings -/

section
variable (isPrint : Char → Bool)

/-- A character that an escape gives by one letter. -/
def letters : List (Char × Char) := ('"', '"') :: ('\\', '\\') :: namedEscapes

/-- What the escape of a character says about it. -/
inductive Escaped : Char → List Char → Prop where
  | plain {r : Char} : r ≠ '"' → r ≠ '\\' → Escaped r [r]
  | letter {r k : Char} : (r, k) ∈ letters → Escaped r ['\\', k]
  | byte {r : Char} : r.toNat < 256 →
    Escaped r ('\\' :: 'x' :: [hexDigit (r.toNat / 16), hexDigit (r.toNat % 16)])
  | unit {r : Char} : r.toNat < 65536 → Escaped r ('\\' :: 'u' :: hexDigits r.toNat)
  | wide (r : Char) : Escaped r
    ('\\' :: 'U' :: (hexDigits (r.toNat / 0x10000) ++ hexDigits (r.toNat % 0x10000)))

theorem escapedRune_escaped (r : Char) : Escaped r (escapedRune isPrint r) := by
  unfold escapedRune
  by_cases hspecial : r = '"' ∨ r = '\\'
  · rw [if_pos hspecial]
    rcases hspecial with rfl | rfl <;> exact .letter (by simp [letters])
  · rw [if_neg hspecial]
    rw [not_or] at hspecial
    by_cases hprint : isPrint r = true
    · rw [if_pos hprint]
      exact .plain hspecial.1 hspecial.2
    · rw [if_neg hprint]
      cases hnamed : namedEscapes.lookup r with
      | some k =>
        exact .letter (List.mem_cons_of_mem _ (List.mem_cons_of_mem _ (mem_of_lookup hnamed)))
      | none =>
        dsimp only
        by_cases hbyte : r < ' ' ∨ r = '\x7f'
        · rw [if_pos hbyte]
          refine .byte ?_
          rcases hbyte with hlt | rfl
          · have : r.toNat < 32 := hlt
            omega
          · decide
        · rw [if_neg hbyte]
          by_cases hunit : r.toNat < 0x10000
          · rw [if_pos hunit]
            exact .unit hunit
          · rw [if_neg hunit]
            exact .wide r

theorem hexDigits_append_inj {m n : Nat} (hm : m < 65536) (hn : n < 65536) {x y : List Char}
    (h : hexDigits m ++ x = hexDigits n ++ y) : m = n ∧ x = y := by
  have hread := hex4_hexDigits hm x
  rw [h, hex4_hexDigits hn y] at hread
  simp only [Option.some.injEq, Prod.mk.injEq] at hread
  exact ⟨hread.1.symm, hread.2.symm⟩

/-- The letter after a backslash, which tells the forms of an escape apart. -/
theorem letters_facts : (∀ e ∈ letters, e.2 ≠ 'x' ∧ e.2 ≠ 'u' ∧ e.2 ≠ 'U') ∧
    ∀ e ∈ letters, ∀ f ∈ letters, e.2 = f.2 → e.1 = f.1 := by
  decide

/-- An escape can be told from what follows it. -/
theorem Escaped.append_inj {a b : Char} {s t x y : List Char} (ha : Escaped a s) (hb : Escaped b t)
    (h : s ++ x = t ++ y) :
    a = b ∧ x = y := by
  have hletters := letters_facts.1
  cases ha with
  | plain hquote hslash =>
    cases hb with
    | plain _ _ => exact List.cons.inj h
    | _ => exact absurd (List.cons.inj h).1 hslash
  | letter hk =>
    cases hb with
    | plain _ hslash => exact absurd (List.cons.inj h).1.symm hslash
    | letter hk' =>
      obtain ⟨-, h⟩ := List.cons.inj h
      obtain ⟨hsame, h⟩ := List.cons.inj h
      exact ⟨letters_facts.2 _ hk _ hk' hsame, h⟩
    | byte _ => exact absurd (List.cons.inj (List.cons.inj h).2).1 (hletters _ hk).1
    | unit _ => exact absurd (List.cons.inj (List.cons.inj h).2).1 (hletters _ hk).2.1
    | wide => exact absurd (List.cons.inj (List.cons.inj h).2).1 (hletters _ hk).2.2
  | byte hlt =>
    cases hb with
    | plain _ hslash => exact absurd (List.cons.inj h).1.symm hslash
    | letter hk' => exact absurd (List.cons.inj (List.cons.inj h).2).1.symm (hletters _ hk').1
    | byte hlt' =>
      simp only [List.cons_append, List.nil_append, List.cons.injEq, true_and] at h
      obtain ⟨hhigh, hlow, hrest⟩ := h
      have hdiv := hexDigit_inj (by omega) (by omega) hhigh
      have hmod := hexDigit_inj (by omega) (by omega) hlow
      exact ⟨Char.toNat_inj.mp (by omega), hrest⟩
    | unit _ | wide => exact absurd (List.cons.inj (List.cons.inj h).2).1 (by decide)
  | unit hlt =>
    cases hb with
    | plain _ hslash => exact absurd (List.cons.inj h).1.symm hslash
    | letter hk' => exact absurd (List.cons.inj (List.cons.inj h).2).1.symm (hletters _ hk').2.1
    | byte _ | wide => exact absurd (List.cons.inj (List.cons.inj h).2).1 (by decide)
    | unit hlt' =>
      obtain ⟨hsame, hrest⟩ := hexDigits_append_inj hlt hlt' (List.cons.inj (List.cons.inj h).2).2
      exact ⟨Char.toNat_inj.mp hsame, hrest⟩
  | wide =>
    cases hb with
    | plain _ hslash => exact absurd (List.cons.inj h).1.symm hslash
    | letter hk' => exact absurd (List.cons.inj (List.cons.inj h).2).1.symm (hletters _ hk').2.2
    | byte _ | unit _ => exact absurd (List.cons.inj (List.cons.inj h).2).1 (by decide)
    | wide =>
      have hlt := toNat_lt a
      have hlt' := toNat_lt b
      simp only [List.cons_append, List.append_assoc, List.cons.injEq, true_and] at h
      obtain ⟨hhigh, hdigits⟩ := hexDigits_append_inj (by omega) (by omega) h
      obtain ⟨hlow, hrest⟩ := hexDigits_append_inj (by omega) (by omega) hdigits
      exact ⟨Char.toNat_inj.mp (by omega), hrest⟩

/-- No escape starts with the quotation mark. -/
theorem Escaped.not_quote {a : Char} {s x y : List Char} (ha : Escaped a s) :
    s ++ x ≠ '"' :: y := by
  intro h
  cases ha with
  | plain hquote _ => exact hquote (List.cons.inj h).1
  | _ => exact absurd (List.cons.inj h).1 (by decide)

theorem escaped_append_iff (s t x y : List Char) :
    s.flatMap (escapedRune isPrint) ++ '"' :: x = t.flatMap (escapedRune isPrint) ++ '"' :: y ↔
      s = t ∧ x = y := by
  constructor
  · intro h
    induction s generalizing t with
    | nil =>
      cases t with
      | nil => exact ⟨rfl, (List.cons.inj h).2⟩
      | cons b t =>
        rw [List.flatMap_cons, List.append_assoc] at h
        exact absurd h.symm (escapedRune_escaped isPrint b).not_quote
    | cons a s ih =>
      rw [List.flatMap_cons, List.append_assoc] at h
      cases t with
      | nil => exact absurd h (escapedRune_escaped isPrint a).not_quote
      | cons b t =>
        rw [List.flatMap_cons, List.append_assoc] at h
        obtain ⟨rfl, hrest⟩ :=
          (escapedRune_escaped isPrint a).append_inj (escapedRune_escaped isPrint b) h
        obtain ⟨rfl, hxy⟩ := ih t hrest
        exact ⟨rfl, hxy⟩
  · rintro ⟨rfl, rfl⟩
    rfl

/-- A quoted string can be told from what follows it. -/
theorem quote_append_iff (s t : String) (x y : List Char) :
    quote isPrint s ++ x = quote isPrint t ++ y ↔ s = t ∧ x = y := by
  have h := escaped_append_iff isPrint s.toList t.toList x y
  rw [String.toList_inj] at h
  rw [← h]
  simp [quote]

end

/-! ### Keys -/

section
variable (rounding : String → ℚ) (isPrint : Char → Bool)

theorem keyFields_eq (fields : List (String × Value)) :
    keyFields rounding isPrint fields = fields.map fun f =>
      (f.1, equalityKey rounding isPrint f.2) := by
  induction fields with
  | nil => rfl
  | cons f fields ih => rw [keyFields, ih, List.map_cons]

theorem equalFields_iff {xs ys : List (String × Value)} :
    equalFields rounding xs ys = true ↔ ∀ f ∈ xs, ∃ w, ys.lookup f.1 = some w ∧
      equal rounding f.2 w = true := by
  induction xs with
  | nil => simp [equalFields]
  | cons f xs ih =>
    obtain ⟨k, v⟩ := f
    rw [equalFields, Bool.and_eq_true, ih, List.forall_mem_cons]
    refine and_congr ?_ Iff.rfl
    cases ys.lookup k <;> simp

/-- A key does not start with a closing bracket. -/
theorem equalityKey_ne_close (v : Value) (x y : List Char) :
    equalityKey rounding isPrint v ++ x ≠ ']' :: y := by
  intro h
  cases v with
  | bool b => cases b <;> exact absurd (List.cons.inj h).1 (by decide)
  | _ =>
    simp only [equalityKey, List.cons_append, List.cons.injEq] at h
    exact absurd h.1 (by decide)

/-- The keys of the items of an array, up to its bracket. -/
theorem keyItems_append_iff {xs ys : List Value} {x y : List Char}
    (h : ∀ v ∈ xs, ∀ w ∈ ys, ∀ r u, Stops r → Stops u →
      (equalityKey rounding isPrint v ++ r = equalityKey rounding isPrint w ++ u ↔
      equal rounding v w = true ∧ r = u)) :
    keyItems rounding isPrint xs ++ ']' :: x = keyItems rounding isPrint ys ++ ']' :: y ↔
      equalItems rounding xs ys = true ∧ x = y := by
  induction xs generalizing ys with
  | nil =>
    cases ys with
    | nil => simp [keyItems, equalItems]
    | cons w ys =>
      have hne := equalityKey_ne_close rounding isPrint w
        (',' :: (keyItems rounding isPrint ys ++ ']' :: y)) x
      simp [keyItems, equalItems, hne.symm]
  | cons v xs ih =>
    cases ys with
    | nil =>
      have hne := equalityKey_ne_close rounding isPrint v
        (',' :: (keyItems rounding isPrint xs ++ ']' :: x)) y
      simp [keyItems, equalItems, hne]
    | cons w ys =>
      have hhead := h v List.mem_cons_self w List.mem_cons_self _ _
        (stops_comma (keyItems rounding isPrint xs ++ ']' :: x))
        (stops_comma (keyItems rounding isPrint ys ++ ']' :: y))
      have htail := ih fun a ha b hb => h a (List.mem_cons_of_mem v ha) b
        (List.mem_cons_of_mem w hb)
      simp only [keyItems, equalItems, List.append_assoc, List.cons_append, hhead, List.cons.injEq,
        true_and, htail, Bool.and_eq_true, and_assoc]

/-- The fields of an object, up to its bracket. -/
theorem joinFields_append_iff {fs gs : List (String × List Char)} {x y : List Char}
    (h : ∀ f ∈ fs, ∀ g ∈ gs, ∀ r u, Stops r → Stops u → (f.2 ++ r = g.2 ++ u ↔ f.2 = g.2 ∧ r = u)) :
    joinFields isPrint fs ++ '}' :: x = joinFields isPrint gs ++ '}' :: y ↔ fs = gs ∧ x = y := by
  induction fs generalizing gs with
  | nil =>
    cases gs with
    | nil => simp [joinFields]
    | cons g gs => simp [joinFields, quote]
  | cons f fs ih =>
    cases gs with
    | nil => simp [joinFields, quote]
    | cons g gs =>
      have hhead := h f List.mem_cons_self g List.mem_cons_self _ _
        (stops_comma (joinFields isPrint fs ++ '}' :: x))
        (stops_comma (joinFields isPrint gs ++ '}' :: y))
      have htail := ih fun a ha b hb => h a (List.mem_cons_of_mem f ha) b
        (List.mem_cons_of_mem g hb)
      show quote isPrint f.1 ++ ':' :: f.2 ++ [','] ++ joinFields isPrint fs ++ _ =
        quote isPrint g.1 ++ ':' :: g.2 ++ [','] ++ joinFields isPrint gs ++ _ ↔ _
      simp only [List.append_assoc, List.cons_append, List.nil_append, quote_append_iff,
        List.cons.injEq, true_and, hhead, htail]
      rw [Prod.ext_iff]
      tauto

theorem equalityKey_number {v w : Value} {p q : ℚ} (hv : number rounding v = some p)
    (hw : number rounding w = some q) {r u : List Char} (hr : Stops r) (hu : Stops u) :
    equalityKey rounding isPrint v ++ r = equalityKey rounding isPrint w ++ u ↔
      equal rounding v w = true ∧ r = u := by
  have hkey : ∀ {x : Value} {a : ℚ}, number rounding x = some a →
      equalityKey rounding isPrint x = 'n' :: ratString a := by
    intro x a hx
    cases x <;> simp_all [number, equalityKey]
  have hequal : equal rounding v w = true ↔ p = q := by
    cases v <;> simp_all [number, equal]
  rw [hkey hv, hkey hw, hequal, List.cons_append, List.cons_append, List.cons.injEq]
  simp only [true_and]
  exact ratString_append_iff hr hu

/-- A key, up to the comma after it, determines the value up to equality. -/
theorem equalityKey_append_iff {v w : Value} (hv : Distinct v) (hw : Distinct w) {r u : List Char}
    (hr : Stops r) (hu : Stops u) :
    equalityKey rounding isPrint v ++ r = equalityKey rounding isPrint w ++ u ↔
      equal rounding v w = true ∧ r = u := by
  induction hv generalizing w r u with
  | null =>
    cases w with
    | bool b => cases b <;> simp [equalityKey, equal]
    | _ => simp [equalityKey, equal]
  | bool a =>
    cases w with
    | bool b => cases a <;> cases b <;> simp [equalityKey, equal]
    | _ => cases a <;> simp [equalityKey, equal]
  | int m =>
    cases w with
    | int n | real l => exact equalityKey_number rounding isPrint rfl rfl hr hu
    | bool b => cases b <;> simp [equalityKey, equal, number]
    | _ => simp [equalityKey, equal, number]
  | real l =>
    cases w with
    | int n | real l' => exact equalityKey_number rounding isPrint rfl rfl hr hu
    | bool b => cases b <;> simp [equalityKey, equal, number]
    | _ => simp [equalityKey, equal, number]
  | str s =>
    cases w with
    | str t => simp [equalityKey, equal, quote_append_iff]
    | bool b => cases b <;> simp [equalityKey, equal]
    | _ => simp [equalityKey, equal]
  | @arr xs _ ih =>
    cases hw with
    | @arr ys hys =>
      have hitems : _ = _ ++ ']' :: u ↔ _ := keyItems_append_iff rounding isPrint (x := r)
        fun v hv w hw r u hr hu => ih v hv (hys w hw) hr hu
      simp only [equalityKey, equal, List.cons_append, List.append_assoc, List.nil_append,
        List.cons.injEq, true_and, hitems]
    | bool b => cases b <;> simp [equalityKey, equal]
    | _ => simp [equalityKey, equal]
  | @obj xs hkeys _ ih =>
    cases hw with
    | @obj ys hkeys' hys =>
      -- The key of a value, read to its end, says which values are equal to it.
      have hequal : ∀ f ∈ xs, ∀ g ∈ ys, (equal rounding f.2 g.2 = true ↔
          equalityKey rounding isPrint f.2 = equalityKey rounding isPrint g.2) := by
        intro f hf g hg
        have h := ih f hf (hys g hg) stops_nil stops_nil
        simpa using h.symm
      have hfields : ∀ f ∈ sortFields (xs.map fun f => (f.1, equalityKey rounding isPrint f.2)),
          ∀ g ∈ sortFields (ys.map fun f => (f.1, equalityKey rounding isPrint f.2)), ∀ r u,
            Stops r → Stops u → (f.2 ++ r = g.2 ++ u ↔ f.2 = g.2 ∧ r = u) := by
        intro f hf g hg r u hr hu
        obtain ⟨a, ha, rfl⟩ := List.mem_map.mp ((sortFields_perm _).subset hf)
        obtain ⟨b, hb, rfl⟩ := List.mem_map.mp ((sortFields_perm _).subset hg)
        rw [← hequal a ha b hb]
        exact ih a ha (hys b hb) hr hu
      have hnodup : ((xs.map fun f => (f.1, equalityKey rounding isPrint f.2)).map
          (·.1)).Nodup := by
        rw [List.map_map]
        exact hkeys
      simp only [equalityKey, keyFields_eq, sortKeys_eq, List.cons_append, List.append_assoc,
        List.nil_append, List.cons.injEq, true_and]
      rw [joinFields_append_iff isPrint hfields, sortFields_eq_iff hnodup,
        perm_map_iff _ (fun v w => equal rounding v w = true) hkeys hkeys' hequal, equal,
          Bool.and_eq_true, beq_iff_eq,
        equalFields_iff]
    | bool b => cases b <;> simp [equalityKey, equal]
    | _ => simp [equalityKey, equal]

theorem key_iff {a b : Value} (ha : Distinct a) (hb : Distinct b) :
    equalityKey rounding isPrint a = equalityKey rounding isPrint b ↔
      equal rounding a b = true := by
  have h := equalityKey_append_iff rounding isPrint ha hb stops_nil stops_nil
  simpa using h

/-- **A key is an equality.** Two JSON values whose objects have distinct keys have one key iff the
reference calls them equal. -/
theorem equalityKey_iff_equal (a b : Value) (ha : Distinct a) (hb : Distinct b) :
    equalityKey rounding isPrint a = equalityKey rounding isPrint b ↔ equal rounding a b = true :=
  key_iff rounding isPrint ha hb

end

theorem equalityKey_iff_equal_shown :
    equalityKey (fun _ => 1) (fun _ => true) (.obj [("a", .int 1), ("b", .arr [.real "10e-1"])]) =
        equalityKey (fun _ => 1) (fun _ => true) (.obj [("b", .arr [.int 1]), ("a", .real "1.0")]) ↔
      equal (fun _ => 1) (.obj [("a", .int 1), ("b", .arr [.real "10e-1"])])
        (.obj [("b", .arr [.int 1]), ("a", .real "1.0")]) = true := by
  refine equalityKey_iff_equal (fun _ => 1) (fun _ => true) _ _ (.obj (by decide) ?_)
    (.obj (by decide) ?_)
  · exact List.forall_mem_cons.mpr
      ⟨.int 1, List.forall_mem_singleton.mpr (.arr (List.forall_mem_singleton.mpr (.real _)))⟩
  · exact List.forall_mem_cons.mpr
      ⟨.arr (List.forall_mem_singleton.mpr (.int 1)), List.forall_mem_singleton.mpr (.real _)⟩

/-! ### What the keywords decide -/

section
variable (rounding : String → ℚ) (isPrint : Char → Bool)

theorem constHolds_iff {constant value : Value} (hc : Distinct constant) (hv : Distinct value) :
    constHolds rounding isPrint constant value = true ↔ equal rounding value constant = true := by
  unfold constHolds
  rw [beq_iff_eq]
  exact key_iff rounding isPrint hv hc

theorem enumHolds_iff {enumeration : List Value} {value : Value}
    (he : ∀ x ∈ enumeration, Distinct x) (hv : Distinct value) :
    enumHolds rounding isPrint enumeration value = true ↔
      ∃ x ∈ enumeration, equal rounding value x = true := by
  unfold enumHolds
  rw [List.contains_iff_mem, List.mem_map]
  refine exists_congr fun x => and_congr_right fun hx => ?_
  rw [eq_comm]
  exact key_iff rounding isPrint hv (he x hx)

/-- The loop of `uniqueItems` finds a key that it has seen, or one that comes again. -/
theorem uniqueFrom_iff (seen : List (List Char)) (items : List Value) :
    uniqueFrom rounding isPrint seen items = true ↔
    (∀ v ∈ items, equalityKey rounding isPrint v ∉ seen) ∧
    (items.map (equalityKey rounding isPrint)).Nodup := by
  induction items generalizing seen with
  | nil => simp [uniqueFrom]
  | cons v items ih =>
    unfold uniqueFrom
    rw [List.forall_mem_cons]
    by_cases hseen : equalityKey rounding isPrint v ∈ seen
    · simp [hseen]
    · simp only [List.contains_iff_mem, hseen, if_false, ih, List.mem_cons, not_or, List.map_cons,
        List.nodup_cons, List.mem_map, not_exists, not_and]
      constructor
      · rintro ⟨hnew, hnodup⟩
        exact ⟨⟨not_false, fun w hw => (hnew w hw).2⟩, fun w hw => (hnew w hw).1, hnodup⟩
      · rintro ⟨⟨-, hold⟩, hnew, hnodup⟩
        exact ⟨fun w hw => ⟨hnew w hw, hold w hw⟩, hnodup⟩

/-- **`uniqueItems` holds iff no two items are equal.** -/
theorem uniqueHolds_iff {items : List Value} (h : ∀ v ∈ items, Distinct v) :
    uniqueHolds rounding isPrint items = true ↔
      items.Pairwise fun v w => equal rounding v w = false := by
  unfold uniqueHolds
  rw [uniqueFrom_iff]
  simp only [List.not_mem_nil, not_false_iff, implies_true, true_and]
  unfold List.Nodup
  rw [List.pairwise_map]
  refine List.Pairwise.iff_of_mem fun {v w} hv hw => ?_
  rw [ne_eq, key_iff rounding isPrint (h v hv) (h w hw), Bool.not_eq_true]

end

theorem uniqueHolds_iff_shown :
    uniqueHolds (fun _ => 1) (fun _ => true) [.int 1, .real "1.0"] = true ↔
    [Value.int 1, .real "1.0"].Pairwise fun v w => equal (fun _ => 1) v w = false :=
  uniqueHolds_iff _ _ (List.forall_mem_cons.mpr ⟨.int 1, List.forall_mem_singleton.mpr (.real _)⟩)

end Hf2l.Exchange.Schema
