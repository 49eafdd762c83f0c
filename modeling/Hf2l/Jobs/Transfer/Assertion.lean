import Hf2l.Exchange.Domain.CanonicalRoundTrip

/-!
# `Hf2l.Jobs.Transfer.Assertion`: what the trusted proxy signs

The trusted ingress of the jobs service tells the Exchange which client certificate it has verified.
It signs the certificate's thumbprint together with the request (`asciiQuote` and
`BackendAssertionHeaders` in `internal/transfer/common.go`).

Two functions of Go's library are parameters: `upperTable` is the upper case of a character outside
of ASCII, and `hmac` is HMAC-SHA256 under a secret. Headers are as `http.Header` has them. -/

set_option autoImplicit false

namespace Hf2l.Jobs.Transfer

open Lib Lib.Json
open Exchange.Domain (toBytes)

/-- A `http.Header`: the values of each name. -/
abbrev Header := List (String × List String)

/-- `hex.EncodeToString`. -/
def hexEncode (bytes : List UInt8) : String :=
  String.ofList (bytes.flatMap fun b => [hexDigit (b.toNat / 16), hexDigit (b.toNat % 16)])

/-- `^[A-Za-z0-9_-]{43}$`, in both services. -/
def thumbprintPattern (s : String) : Bool :=
  s.toList.length == 43 && s.toList.all fun c => c.isAlphanum || c == '_' || c == '-'

section
variable (upperTable : Char → Char)

/-- `strings.ToUpper`. -/
def toUpper (s : String) : String :=
  String.ofList (s.toList.map fun r => if r.toNat < 128 then r.toUpper else upperTable r)

/-- One rune of `asciiQuote`. -/
def asciiQuoteRune (r : Char) : List Char :=
  if r = '"' then ['\\', '"']
  else if r = '\\' then ['\\', '\\']
  else if r = '\x08' then ['\\', 'b']
  else if r = '\x0c' then ['\\', 'f']
  else if r = '\n' then ['\\', 'n']
  else if r = '\r' then ['\\', 'r']
  else if r = '\t' then ['\\', 't']
  else if r.toNat < 32 ∨ r.toNat ≥ 127 then
    if r.toNat ≤ 65535 then unicodeEscape r.toNat
    else
      unicodeEscape (0xd800 + (r.toNat - 65536) >>> 10) ++
        unicodeEscape (0xdc00 + ((r.toNat - 65536) &&& 1023))
  else [r]

/-- `asciiQuote`. -/
def asciiQuote (s : String) : List Char := '"' :: s.toList.flatMap asciiQuoteRune ++ ['"']

/-- What an assertion is about. -/
structure Assertion where
  method : String
  target : String
  authorization : String
  thumbprint : String
  timestamp : String
deriving DecidableEq, Repr

/-- The message that `BackendAssertionHeaders` signs. -/
def Assertion.message (a : Assertion) : ByteArray :=
  let encoded :=
    [toUpper upperTable a.method, a.target, a.authorization, a.thumbprint, a.timestamp].map
      asciiQuote
  toBytes ('[' :: joined encoded ++ [']'])

/-- `BackendAssertionHeaders`. -/
def backendAssertionHeaders (hmac : String → ByteArray → List UInt8)
    (secret method target authorization thumb : String) (stamp : Int) : Option Header :=
  if secret.utf8ByteSize < 32 ∨ thumbprintPattern thumb = false then none
  else
    let timestamp := String.ofList (decimal stamp)
    let message := Assertion.message upperTable ⟨method, target, authorization, thumb, timestamp⟩
    some [("X-Hf2l-Backend-Timestamp", [timestamp]), ("X-Hf2l-Tls-Thumbprint", [thumb]),
      ("X-Hf2l-Backend-Signature", [hexEncode (hmac secret message)])]

end

/-! ### The two escapers -/

/-- The quotation of a character is the one of canonical JSON in ASCII. -/
theorem asciiQuoteRune_eq (r : Char) : asciiQuoteRune r = Exchange.Domain.appendRune true r := by
  have hmask : ∀ m, m &&& 1023 = m % 0x400 := fun m => Nat.and_two_pow_sub_one_eq_mod m 10
  by_cases hnamed : r = '"' ∨ r = '\\' ∨ r = '\x08' ∨ r = '\x0c' ∨ r = '\n' ∨ r = '\r' ∨ r = '\t'
  · rcases hnamed with rfl | rfl | rfl | rfl | rfl | rfl | rfl <;> decide
  · simp only [not_or] at hnamed
    obtain ⟨hquote, hslash, hb, hf, hn, hr, ht⟩ := hnamed
    unfold asciiQuoteRune Exchange.Domain.appendRune highHalf lowHalfOf
    rw [hmask, Nat.shiftRight_eq_div_pow]
    simp only [hquote, hslash, hb, hf, hn, hr, ht, if_false, true_and]
    -- The two split the other code points at different points, but into the same four classes.
    by_cases hcontrol : r.toNat < 32
    · rw [if_pos (Or.inl hcontrol), if_pos (by omega), if_pos hcontrol]
    · by_cases hascii : r.toNat ≥ 127
      · rw [if_pos (Or.inr hascii), if_neg hcontrol, if_pos hascii]
        by_cases hplane : r.toNat ≤ 65535
        · rw [if_pos hplane, if_neg (by omega)]
        · rw [if_neg hplane, if_pos (by omega)]
      · rw [if_neg (by omega), if_neg hcontrol, if_neg hascii]

theorem asciiQuote_eq (s : String) : asciiQuote s = Exchange.Domain.appendString true s := by
  unfold asciiQuote Exchange.Domain.appendString quoted
  rw [funext asciiQuoteRune_eq]

theorem hexEncode_injective {a b : List UInt8} (h : hexEncode a = hexEncode b) : a = b := by
  have hlist := String.ofList_injective h
  induction a generalizing b with
  | nil =>
    cases b with
    | nil => rfl
    | cons y b => simp at hlist
  | cons x a ih =>
    cases b with
    | nil => simp at hlist
    | cons y b =>
      simp only [List.flatMap_cons, List.cons_append, List.nil_append, List.cons.injEq] at hlist
      obtain ⟨hhigh, hlow, hrest⟩ := hlist
      have hx := x.toNat_lt
      have hy := y.toNat_lt
      have hdiv := hexDigit_inj (by omega) (by omega) hhigh
      have hmod := hexDigit_inj (by omega) (by omega) hlow
      have hxy : x = y := UInt8.toNat_inj.mp (by omega)
      rw [hxy, ih (congrArg String.ofList hrest) hrest]

end Hf2l.Jobs.Transfer
