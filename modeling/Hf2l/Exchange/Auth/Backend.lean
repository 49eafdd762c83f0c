import Hf2l.Exchange.Store.Rows
import Hf2l.Jobs.Transfer.Assertion
import Hf2l.Lib.Binary64

/-!
# `Hf2l.Exchange.Auth.Backend`: the thumbprint that a trusted backend asserts

`VerifiedBackendThumbprint` (`internal/auth/backend.go`) rebuilds the signed message with the
canonical JSON of the Exchange and compares signatures. `Hf2l.Jobs.Transfer.Assertion` is the other
side.

The clock is in microseconds. Names of headers are ASCII, as `net/http` has checked.
-/

set_option autoImplicit false

namespace Hf2l.Exchange.Auth

open Lib.Json Lib.Json.Value
open Lib.Binary64 (nearest)
open Exchange.Domain (canonical toBytes)
open Jobs.Transfer
  (Header hexEncode hexEncode_injective thumbprintPattern toUpper Assertion asciiQuote asciiQuote_eq
  backendAssertionHeaders)

structure AuthSettings where
  workloadIssuer : String
  trustedBackendSecret : String

def AuthSettings.workloadsEnabled (s : AuthSettings) : Bool := s.workloadIssuer != ""

/-- `strings.EqualFold`, in ASCII. -/
def equalFold (a b : String) : Bool := a.toList.map Char.toLower == b.toList.map Char.toLower

/-- `oneHeader`: the value of a header that is there once. -/
def oneHeader (headers : Header) (name : String) : Option String :=
  match (headers.filter fun h => equalFold h.1 name).flatMap (·.2) with
  | [value] => some value
  | _ => none

/-- `strconv.ParseInt` of decimal digits. -/
def parseInt (digits : List Char) : Option Int :=
  let n := digitsValue digits
  if n ≤ 9223372036854775807 then some n else none

/-- The age of a time stamp in seconds, as floats. -/
def age (now seconds : Int) : ℚ := nearest (nearest (nearest now / 1000000) - nearest seconds)

section
variable (upperTable : Char → Char) (pythonFloat : String → Option (List Char))
  (hmac : String → ByteArray → List UInt8)

/-- The message that the verifier rebuilds. -/
def rebuiltMessage (a : Assertion) : Except String ByteArray :=
  canonical pythonFloat true
    (.arr [.str (toUpper upperTable a.method), .str a.target, .str a.authorization,
      .str a.thumbprint, .str a.timestamp])

/-- `VerifiedBackendThumbprint`. -/
def verifiedBackendThumbprint (settings : AuthSettings) (method target authorization : String)
    (headers : Header) (now : Int) :
    Except Error String :=
  let fail := throw (err 401 "invalid_backend_assertion")
  match oneHeader headers "X-HF2L-Backend-Timestamp", oneHeader headers "X-HF2L-TLS-Thumbprint",
      oneHeader headers "X-HF2L-Backend-Signature" with
  | some stamp, some thumbprint, some signature =>
    if !settings.workloadsEnabled || decide (settings.trustedBackendSecret.utf8ByteSize < 32) ||
        !thumbprintPattern thumbprint || stamp == "" then
      fail
    else if !(stamp.toList.all fun c => decide ('0' ≤ c) && decide (c ≤ '9')) then fail
    else
      match parseInt stamp.toList with
      | none => fail
      | some seconds =>
        if age now seconds < -30 ∨ age now seconds > 30 then fail
        else
          match rebuiltMessage upperTable pythonFloat ⟨method, target, authorization, thumbprint,
            stamp⟩ with
          | .error _ => fail
          | .ok raw =>
            if signature = hexEncode (hmac settings.trustedBackendSecret raw) then pure thumbprint
            else fail
  | _, _, _ => fail

/-- What a request asserts, if it is well formed. -/
def presented (method target authorization : String) (headers : Header) : Option Assertion :=
  match oneHeader headers "X-HF2L-Backend-Timestamp", oneHeader headers "X-HF2L-TLS-Thumbprint" with
  | some stamp, some thumbprint => some ⟨method, target, authorization, thumbprint, stamp⟩
  | _, _ => none

/-! ### One message -/

section
variable (a : Assertion)

/-- The array that is signed. -/
def fields : List Value :=
  [.str (toUpper upperTable a.method), .str a.target, .str a.authorization, .str a.thumbprint,
    .str a.timestamp]

theorem plain_fields : Plain (.arr (fields upperTable a)) := by
  apply Plain.arr
  intro v hv
  simp only [fields, List.mem_cons, List.not_mem_nil, or_false] at hv
  rcases hv with rfl | rfl | rfl | rfl | rfl <;> exact .str _

theorem nesting_fields : (Value.arr (fields upperTable a)).nesting ≤ 64 := by
  simp [fields, nesting, nestingItems]

theorem norm_fields : (Value.arr (fields upperTable a)).norm = .arr (fields upperTable a) := by
  simp [fields, Value.norm, normItems]

/-- The message of the jobs service is the array in canonical JSON. -/
theorem message_eq :
    a.message upperTable = toBytes (Domain.spelled true (.arr (fields upperTable a))) := by
  rw [Domain.spelled_arr]
  simp [Assertion.message, fields, Domain.spelled, asciiQuote_eq]

/-- **The two services write one message.** -/
theorem rebuiltMessage_eq :
    rebuiltMessage upperTable pythonFloat a = .ok (a.message upperTable) := by
  show canonical pythonFloat true (.arr (fields upperTable a)) = _
  rw [Domain.canonical_eq pythonFloat true (plain_fields upperTable a),
    if_pos (nesting_fields upperTable a), norm_fields, message_eq]

end

/-- The strings of a message can be read back from it. -/
theorem message_inj {a b : Assertion} : a.message upperTable = b.message upperTable ↔
      toUpper upperTable a.method = toUpper upperTable b.method ∧ a.target = b.target ∧
        a.authorization = b.authorization ∧ a.thumbprint = b.thumbprint ∧
        a.timestamp = b.timestamp := by
  constructor
  · intro h
    -- The decoder of the Exchange reads the five strings back.
    have hread : ∀ c : Assertion, Domain.decodeJSON (c.message upperTable) =
        .ok (.arr (fields upperTable c)) := by
      intro c
      rw [message_eq]
      exact Domain.decode_spelled true (plain_fields upperTable c) (nesting_fields upperTable c)
    have hboth := hread a
    rw [h, hread b] at hboth
    simpa [fields, eq_comm] using hboth
  · rintro ⟨hmethod, htarget, hauthorization, hthumbprint, htimestamp⟩
    unfold Assertion.message
    rw [hmethod, htarget, hauthorization, hthumbprint, htimestamp]

/-! ### What is accepted was signed -/

/-- What the verifier has found when it accepts. -/
theorem verified_ok {settings : AuthSettings} {method target authorization : String}
    {headers : Header} {now : Int} {thumbprint : String}
    (h : verifiedBackendThumbprint upperTable pythonFloat hmac settings method target authorization
      headers now = .ok thumbprint) :
    ∃ stamp, oneHeader headers "X-HF2L-Backend-Timestamp" = some stamp ∧
      oneHeader headers "X-HF2L-TLS-Thumbprint" = some thumbprint ∧
      oneHeader headers "X-HF2L-Backend-Signature" =
        some (hexEncode (hmac settings.trustedBackendSecret
          (Assertion.message upperTable ⟨method, target, authorization, thumbprint, stamp⟩))) := by
  unfold verifiedBackendThumbprint at h
  cases hstamp : oneHeader headers "X-HF2L-Backend-Timestamp" with
  | none =>
    rw [hstamp] at h
    cases h
  | some stamp =>
    cases hthumb : oneHeader headers "X-HF2L-TLS-Thumbprint" with
    | none =>
      rw [hstamp, hthumb] at h
      cases h
    | some found =>
      cases hsignature : oneHeader headers "X-HF2L-Backend-Signature" with
      | none =>
        rw [hstamp, hthumb, hsignature] at h
        cases h
      | some signature =>
        rw [hstamp, hthumb, hsignature] at h
        simp only [rebuiltMessage_eq, throw, throwThe, MonadExceptOf.throw, pure, Except.pure] at h
        split at h
        · cases h
        split at h
        · cases h
        split at h
        · cases h
        split at h
        · cases h
        split at h
        · case isTrue hsame =>
          obtain rfl := Except.ok.inj h
          exact ⟨stamp, rfl, rfl, by rw [hsame]⟩
        · cases h

/-- **A backend assertion is bound to its request.** The signer of the jobs service and the verifier
of the Exchange write the same bytes, from which the upper case of the method and the other four
strings can be read back. So if a signature that verifies is one that was issued, and no issued
message collides with the one at hand, then the verifier accepts only what was signed for the same
target, authorization, thumbprint and time stamp, and for the same method up to case. -/
theorem backend_assertion_bound :
    (∀ a : Assertion, rebuiltMessage upperTable pythonFloat a = .ok (a.message upperTable)) ∧
    (∀ a b : Assertion, a.message upperTable = b.message upperTable ↔
      toUpper upperTable a.method = toUpper upperTable b.method ∧ a.target = b.target ∧
        a.authorization = b.authorization ∧ a.thumbprint = b.thumbprint ∧
        a.timestamp = b.timestamp) ∧
    ∀ (settings : AuthSettings) (signed : Assertion → Prop)
      (method target authorization : String) (headers : Header) (now : Int) (thumbprint : String),
      let tag := fun a : Assertion => hmac settings.trustedBackendSecret (a.message upperTable)
      (∀ b, presented method target authorization headers = some b →
        oneHeader headers "X-HF2L-Backend-Signature" = some (hexEncode (tag b)) →
        ∃ a, signed a ∧ oneHeader headers "X-HF2L-Backend-Signature" = some (hexEncode (tag a))) →
      (∀ a b, signed a → presented method target authorization headers = some b → tag a = tag b →
        a.message upperTable = b.message upperTable) →
      verifiedBackendThumbprint upperTable pythonFloat hmac settings method target authorization
        headers now = .ok thumbprint →
      ∃ a, signed a ∧ toUpper upperTable a.method = toUpper upperTable method ∧ a.target = target ∧
        a.authorization = authorization ∧ a.thumbprint = thumbprint ∧
        oneHeader headers "X-HF2L-Backend-Timestamp" = some a.timestamp := by
  refine ⟨rebuiltMessage_eq upperTable pythonFloat, fun a b => message_inj upperTable, ?_⟩
  intro settings signed method target authorization headers now thumbprint tag hunforged hcollision
    haccepted
  obtain ⟨stamp, hstamp, hthumb, hsignature⟩ := verified_ok upperTable pythonFloat hmac haccepted
  have hpresented : presented method target authorization headers =
      some ⟨method, target, authorization, thumbprint, stamp⟩ := by
    unfold presented
    rw [hstamp, hthumb]
  obtain ⟨a, hsigned, hissued⟩ := hunforged _ hpresented hsignature
  -- One signature, so one tag, and so one message.
  have htag : tag a = tag ⟨method, target, authorization, thumbprint, stamp⟩ := by
    rw [hsignature] at hissued
    exact (hexEncode_injective (Option.some.inj hissued)).symm
  have hmessage := hcollision a _ hsigned hpresented htag
  obtain ⟨hmethod, htarget, hauthorization, hthumbprint, htimestamp⟩ :=
    (message_inj upperTable).mp hmessage
  refine ⟨a, hsigned, hmethod, htarget, hauthorization, hthumbprint, ?_⟩
  rw [hstamp, htimestamp]

end

/-! ### A signed request -/

/-- A tag that determines its message. -/
def plainTag (_ : String) (message : ByteArray) : List UInt8 := message.data.toList

def shownAuth : AuthSettings := ⟨"https://issuer", "0123456789abcdef0123456789abcdef"⟩

def shownThumbprint : String := "AAAAAAAAAAAAAAAAAAAAAAAAAAAAAAAAAAAAAAAAAAA"

/-- What is signed for a request with this method, at time zero. -/
def shownAssertion (method : String) : Assertion :=
  ⟨method, "/v2/spaces", "Bearer t", shownThumbprint, "0"⟩

def shownHeaders (method : String) : Header :=
  [("X-Hf2l-Backend-Timestamp", ["0"]), ("X-Hf2l-Tls-Thumbprint", [shownThumbprint]),
    ("X-Hf2l-Backend-Signature",
      [hexEncode (plainTag shownAuth.trustedBackendSecret ((shownAssertion method).message id))])]

theorem backend_assertion_bound_shown :
    ∃ a : Assertion, a = shownAssertion "GET" ∧ toUpper id a.method = toUpper id "GET" ∧
      a.target = "/v2/spaces" ∧ a.authorization = "Bearer t" ∧ a.thumbprint = shownThumbprint ∧
      oneHeader (shownHeaders "GET") "X-HF2L-Backend-Timestamp" = some a.timestamp := by
  refine (backend_assertion_bound id (fun _ => none) plainTag).2.2 shownAuth
    (· = shownAssertion "GET") "GET" "/v2/spaces"
    "Bearer t" (shownHeaders "GET") 0 shownThumbprint ?_ ?_ (by decide +kernel)
  · intro b _ _
    exact ⟨shownAssertion "GET", rfl, by decide +kernel⟩
  · intro a b _ _ htag
    exact ByteArray.ext (Array.toList_inj.mp htag)

/-- The verifier accepts for `GET` what was signed for `get`: two different requests have one
message. -/
theorem method_case_accepted :
    backendAssertionHeaders id plainTag shownAuth.trustedBackendSecret "get" "/v2/spaces" "Bearer t"
      shownThumbprint 0 = some (shownHeaders "get") ∧
    verifiedBackendThumbprint id (fun _ => none) plainTag shownAuth "GET" "/v2/spaces" "Bearer t"
      (shownHeaders "get") 0 = .ok shownThumbprint ∧
    shownAssertion "get" ≠ shownAssertion "GET" ∧
      (shownAssertion "get").message id = (shownAssertion "GET").message id := by
  refine ⟨?_, ?_, by decide, ?_⟩ <;> decide +kernel

end Hf2l.Exchange.Auth
