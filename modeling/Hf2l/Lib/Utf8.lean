import Mathlib.Data.String.Basic

/-!
# `Hf2l.Lib.Utf8`: strings compared by their bytes

The bytes of a string are its UTF-8 encoding. Comparing two strings byte by byte gives the
same order as comparing them code point by code point (`bytes_lt_iff`), which is the order of
`String`. It is not the order by UTF-16 code units.

An encoding can be cut where a byte is not a continuation byte (`encode_boundary`), and nowhere
else: what remains of a text after a text is a text (`encode_suffix`).
-/

set_option autoImplicit false

namespace Hf2l.Lib.Utf8

/-- The bytes of a string. -/
def bytes (s : String) : List UInt8 := s.toList.flatMap String.utf8EncodeChar

variable {x y : List UInt8}

theorem ofNat_cons_lt {m n : Nat} (hm : m < 256) (hn : n < 256) :
    UInt8.ofNat m :: x < UInt8.ofNat n :: y ↔ m < n ∨ m = n ∧ x < y := by
  have hlt : UInt8.ofNat m < UInt8.ofNat n ↔ m < n := UInt8.ofNat_lt_iff_lt hm hn
  have heq : UInt8.ofNat m = UInt8.ofNat n ↔ m = n := by
    constructor
    · intro h
      have := congrArg UInt8.toNat h
      rwa [UInt8.toNat_ofNat_of_lt' hm, UInt8.toNat_ofNat_of_lt' hn] at this
    · exact congrArg UInt8.ofNat
  rw [List.cons_lt_cons_iff, hlt, heq]

/-- Numbers compare by their base-64 digits, the last one last. -/
theorem digit_lt {m n : Nat} (h : m < n) :
    m / 64 < n / 64 ∨ m / 64 = n / 64 ∧ m % 64 < n % 64 := by omega

/-- **The encoding of a smaller code point is smaller,** whatever follows. -/
theorem utf8EncodeChar_lt {c d : Char} (h : c < d) (x y : List UInt8) :
    String.utf8EncodeChar c ++ x < String.utf8EncodeChar d ++ y := by
  have hlt : c.val.toNat < d.val.toNat := h
  have hmax : d.val.toNat < 1114112 := by
    have := d.valid
    rcases this with h | h
    · exact Nat.lt_trans h (by decide)
    · exact h.2
  unfold String.utf8EncodeChar
  dsimp only
  generalize c.val.toNat = m at hlt
  generalize d.val.toNat = n at hlt hmax
  by_cases hfour : 65535 < m
  · -- Both have four bytes, which compare like the base-64 digits of the code points.
    have hm₃ : m / 262144 =
        m / 64 / 64 / 64 := by rw [Nat.div_div_eq_div_mul, Nat.div_div_eq_div_mul]
    have hn₃ : n / 262144 =
        n / 64 / 64 / 64 := by rw [Nat.div_div_eq_div_mul, Nat.div_div_eq_div_mul]
    have hm₂ : m / 4096 = m / 64 / 64 := by rw [Nat.div_div_eq_div_mul]
    have hn₂ : n / 4096 = n / 64 / 64 := by rw [Nat.div_div_eq_div_mul]
    rw [if_neg (by omega), if_neg (by omega), if_neg (by omega), if_neg (by omega),
      if_neg (by omega), if_neg (by omega), hm₃, hn₃, hm₂, hn₂]
    simp (disch := omega) only [List.cons_append, List.nil_append, ofNat_cons_lt]
    rcases digit_lt hlt with h | h
    · rcases digit_lt h with h | h
      · rcases digit_lt h with h | h <;> omega
      · omega
    · omega
  · -- One case for each pair of lengths: the longer encoding has the larger first byte.
    have hm₂ : m / 4096 = m / 64 / 64 := by rw [Nat.div_div_eq_div_mul]
    have hn₂ : n / 4096 = n / 64 / 64 := by rw [Nat.div_div_eq_div_mul]
    repeat' split
    all_goals
      simp (disch := omega) only [List.cons_append, List.nil_append, ofNat_cons_lt]
      omega

theorem append_lt_append_iff (l x y : List UInt8) : l ++ x < l ++ y ↔ x < y := by
  induction l with
  | nil => rfl
  | cons b l ih =>
    rw [List.cons_append, List.cons_append, List.cons_lt_cons_iff, ih]
    simp

theorem flatMap_lt_iff (l m : List Char) :
    l.flatMap String.utf8EncodeChar < m.flatMap String.utf8EncodeChar ↔ l < m := by
  induction l generalizing m with
  | nil =>
    cases m with
    | nil => simp
    | cons d m =>
      have hne : String.utf8EncodeChar d ≠ [] := String.utf8EncodeChar_ne_nil
      cases he : String.utf8EncodeChar d with
      | nil => exact absurd he hne
      | cons b bs => simp [he]
  | cons c l ih =>
    cases m with
    | nil => simp
    | cons d m =>
      rw [List.flatMap_cons, List.flatMap_cons, List.cons_lt_cons_iff]
      rcases lt_trichotomy c d with h | rfl | h
      · exact iff_of_true (utf8EncodeChar_lt h _ _) (Or.inl h)
      · rw [append_lt_append_iff, ih]
        simp
      · have hgt := utf8EncodeChar_lt h (m.flatMap String.utf8EncodeChar)
          (l.flatMap String.utf8EncodeChar)
        refine iff_of_false (List.lt_asymm hgt) ?_
        rintro (hlt | ⟨rfl, -⟩)
        · exact lt_asymm hlt h
        · exact lt_irrefl _ h

/-- **Strings compare by their bytes as they do by their code points.** -/
theorem bytes_lt_iff (s t : String) : bytes s < bytes t ↔ s < t :=
  (flatMap_lt_iff s.toList t.toList).trans String.lt_iff.symm

/-! ### Cutting an encoding -/

/-- The bytes of a text. -/
def encode (cs : List Char) : List UInt8 := cs.flatMap String.utf8EncodeChar

theorem encode_append (a b : List Char) : encode (a ++ b) = encode a ++ encode b :=
  List.flatMap_append

theorem encode_cons (c : Char) (cs : List Char) :
    encode (c :: cs) = String.utf8EncodeChar c ++ encode cs := rfl

/-- Encodings are told apart by their start. -/
theorem utf8EncodeChar_append_inj {c d : Char}
    (h : String.utf8EncodeChar c ++ x = String.utf8EncodeChar d ++ y) : c = d := by
  rcases lt_trichotomy c d with hlt | heq | hgt
  · exact absurd (h ▸ utf8EncodeChar_lt hlt x y) (List.lt_irrefl _)
  · exact heq
  · exact absurd (h ▸ utf8EncodeChar_lt hgt y x) (List.lt_irrefl _)

/-- What follows a text in a text is a text. -/
theorem encode_suffix {p t : List Char} (h : encode p ++ y = encode t) :
    ∃ c, t = p ++ c ∧ y = encode c := by
  induction p generalizing t with
  | nil => exact ⟨t, rfl, h⟩
  | cons d p ih =>
    cases t with
    | nil =>
      have hnil := (List.append_eq_nil_iff.mp h).1
      exact absurd (List.append_eq_nil_iff.mp hnil).1 String.utf8EncodeChar_ne_nil
    | cons e t =>
      rw [encode_cons, encode_cons, List.append_assoc] at h
      obtain rfl := utf8EncodeChar_append_inj h
      obtain ⟨c, rfl, hy⟩ := ih (List.append_cancel_left h)
      exact ⟨c, rfl, hy⟩

/-- A byte `10xxxxxx`. -/
def Continuation (b : UInt8) : Prop := 128 ≤ b.toNat ∧ b.toNat < 192

/-- An encoding is a byte that is no continuation byte, and then continuation bytes. -/
theorem utf8EncodeChar_shape (c : Char) :
    ∃ b rest, String.utf8EncodeChar c = b :: rest ∧ ¬ Continuation b ∧
      ∀ x ∈ rest, Continuation x := by
  have hmax : c.val.toNat < 1114112 := by
    rcases c.valid with h | h
    · exact Nat.lt_trans h (by decide)
    · exact h.2
  unfold String.utf8EncodeChar Continuation
  dsimp only
  generalize c.val.toNat = m at hmax
  have hbyte {k : Nat} (hk : k < 256) : (UInt8.ofNat k).toNat = k := UInt8.toNat_ofNat_of_lt' hk
  by_cases hone : m ≤ 127
  · rw [if_pos hone]
    exact ⟨_, [], rfl, by rw [hbyte (by omega)]; omega, by simp⟩
  rw [if_neg hone]
  repeat' split
  all_goals
    refine ⟨_, _, rfl, ?_, ?_⟩
    · rw [hbyte (by omega)]
      omega
    · intro x hx
      simp only [List.mem_cons, List.not_mem_nil, or_false] at hx
      rcases hx with rfl | rfl | rfl <;> (rw [hbyte (by omega)]; omega)

/-- **A byte that is no continuation byte starts a character.** -/
theorem encode_boundary {t : List Char} {b : UInt8} (h : encode t = x ++ b :: y)
    (hb : ¬ Continuation b) : ∃ a c, t = a ++ c ∧ encode a = x ∧ encode c = b :: y := by
  induction t generalizing x with
  | nil => simp [encode] at h
  | cons d t ih =>
    rcases List.append_eq_append_iff.mp (encode_cons d t ▸ h) with ⟨x', rfl, ht⟩ | ⟨z, hd, hz⟩
    · obtain ⟨a, c, rfl, ha, hc⟩ := ih ht
      exact ⟨d :: a, c, rfl, by rw [encode_cons, ha], hc⟩
    · cases x with
      | nil => exact ⟨[], d :: t, rfl, rfl, h⟩
      | cons x₀ x =>
        cases z with
        | nil =>
          rw [List.append_nil] at hd
          exact ⟨[d], t, rfl, by rw [encode_cons, hd]; exact List.append_nil _, hz.symm⟩
        | cons z₀ z =>
          -- The byte would be inside the encoding of `d`, after its first byte.
          obtain ⟨b₀, rest, hshape, -, hrest⟩ := utf8EncodeChar_shape d
          obtain ⟨rfl, -⟩ := List.cons.inj hz
          rw [hshape, List.cons_append] at hd
          have hmem : b ∈ rest := by rw [(List.cons.inj hd).2]; simp
          exact absurd (hrest b hmem) hb

/-! ### Decoding -/

/-- The character that some bytes start with. -/
def decodeChar (raw : List UInt8) : Option Char := raw.toByteArray.utf8DecodeChar? 0

theorem decodeChar_encode (c : Char) (x : List UInt8) :
    decodeChar (String.utf8EncodeChar c ++ x) = some c := by
  unfold decodeChar
  rw [List.toByteArray_append]
  exact ByteArray.utf8DecodeChar?_utf8EncodeChar_append

theorem decodeChar_some {raw : List UInt8} {c : Char} (h : decodeChar raw = some c) :
    ∃ x, raw = String.utf8EncodeChar c ++ x := by
  obtain ⟨l, hl⟩ := ByteArray.exists_of_utf8DecodeChar?_eq_some h
  refine ⟨l.data.toList, ?_⟩
  have hdata := congrArg (fun b => b.data.toList) hl
  simpa using hdata

end Hf2l.Lib.Utf8
