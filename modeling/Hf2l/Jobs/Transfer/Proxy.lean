import Hf2l.Lib.Pattern
import Hf2l.Exchange.Transfers.Parts

/-!
# `Hf2l.Jobs.Transfer.Proxy`: which requests of a workload are forwarded

A workload reaches the Exchange only through its execution proxy, which forwards a closed list of
operations (`internal/transfer/proxy.go`, `execution_proxy.py`). `proxyRoute` and `route` decide
whether a path is on the list and which of the two services it is for. `admitRequest` is the whole
of what happens before the credential is fetched: it ends with the target that the request goes to.

A request is one in origin form. The names of its headers are in lower case, as both proxies compare
them.
-/

set_option autoImplicit false

namespace Hf2l.Jobs.Transfer

open RegularExpression (rmatch rmatch_iff_matches' matches'_mul)
open Lib.Pattern
open Exchange.Transfers (AdmissiblePartSize AdmissibleSize partAt)

/-! ### Requests -/

structure Request where
  method : String
  path : List Char
  query : List Char := []
  headers : List String
  /-- The value of the header `content-length`. -/
  contentLength : Option Int
  /-- The header `transfer-encoding` is there. -/
  encoded : Bool := false

/-- What a proxy is set up with. The endpoints are those that requests are sent to: Go has cut the
slashes at their ends off (`serviceEndpoint`), Python passes them on as they are. -/
structure ProxySettings where
  spaceId : List Char
  exchangeEndpoint : List Char
  gatewayEndpoint : List Char
  maxControlBytes : Int := 1048576
  maxPartBytes : Int := 67108864

structure Refusal where
  status : Nat
  code : String
deriving DecidableEq, Repr

def operationNotAllowed : Refusal := ⟨404, "operation_not_allowed"⟩

/-! ### The operations on the list -/

def alphanumerics : List Char :=
  "ABCDEFGHIJKLMNOPQRSTUVWXYZabcdefghijklmnopqrstuvwxyz0123456789".toList

/-- `[A-Za-z0-9_-]` -/
def wordChars : List Char := alphanumerics ++ "_-".toList

/-- `[A-Za-z0-9_.-]` -/
def nameChars : List Char := alphanumerics ++ "_.-".toList

abbrev Pattern := RegularExpression Char

/-- `[A-Za-z0-9_-]+` -/
def word : Pattern := oneOrMore (oneOf wordChars)

/-- `[A-Za-z0-9_.-]+` -/
def name : Pattern := oneOrMore (oneOf nameChars)

def lit (s : String) : Pattern := text s.toList

/-- `(a|b|c)` -/
def choice (ss : List String) : Pattern := anyOf (ss.map lit)

/-- `[A-Za-z0-9_-]+/attachments/[A-Za-z0-9_-]+/parts/[1-9][0-9]{0,3}`, in both proxies. -/
def putTransfer : Pattern :=
  word * (lit "/attachments/" *
    (word * (lit "/parts/" * (oneOf nonzeroDigits * atMost (oneOf digits) 3))))

/-- `[A-Za-z0-9_-]+/attachments/[A-Za-z0-9_-]+/content`, in both proxies. -/
def getTransfer : Pattern := word * (lit "/attachments/" * (word * lit "/content"))

/-- The identifiers that `ExecutionBinding` accepts for a space. -/
def identifier : Pattern := oneOf alphanumerics * atMost (oneOf nameChars) 127

/-- The route of a transfer, common to both proxies. -/
def transferRoute (spaceId : List Char) (r : Request) : Bool :=
  let space := "/transfers/v1/spaces/".toList ++ spaceId ++ "/records/".toList
  space.isPrefixOf r.path &&
    let suffix := r.path.drop space.length
    (r.method == "PUT" && rmatch putTransfer suffix) ||
      ((r.method == "GET" || r.method == "HEAD") && rmatch getTransfer suffix)

/-- The route of a control operation, on a list of allowed ones. -/
def controlRoute (controls : List (String × Pattern)) (spaceId : List Char) (r : Request) : Bool :=
  let space := "/v2/spaces/".toList ++ spaceId
  (r.path == space || (space ++ ['/']).isPrefixOf r.path) &&
    let suffix := r.path.drop space.length
    controls.any fun allowed => allowed.1 == r.method && rmatch allowed.2 suffix

def emptyOrDots (segment : List Char) : Bool :=
  segment == [] || segment == ['.'] || segment == ['.', '.']

/-- The names of headers that both proxies refuse. -/
def forbiddenHeader (name : String) : Bool :=
  name == "authorization" || name == "proxy-authorization" || name == "cookie" ||
    "x-hf2l-".toList.isPrefixOf name.toList || name == "x-forwarded-client-cert" ||
      name == "x-forwarded-host"

/-- `path` or `path?query`. -/
def requestTarget (r : Request) : List Char :=
  if r.query = [] then r.path else r.path ++ ['?'] ++ r.query

namespace Go

def controls : List (String × Pattern) :=
  [("GET", 1),
   ("GET", lit "/" * choice ["membership", "members", "types"]),
   ("GET", lit "/types/" * (name * (lit "/revisions/" * name))),
   ("GET", lit "/" * choice ["records", "events"]),
   ("POST", lit "/records"),
   ("GET", lit "/records/" * word),
   ("PATCH", lit "/records/" * word),
   ("DELETE", lit "/records/" * word),
   ("POST", lit "/records/" * (word * lit "/publish")),
   ("GET", lit "/refs/main"),
   ("PUT", lit "/refs/main"),
   ("POST", lit "/acquisitions"),
   ("GET", lit "/acquisitions/" * word),
   ("POST", lit "/acquisitions/" * (word * (lit "/" * choice ["renew", "abandon", "complete"]))),
   ("POST", lit "/records/" *
     (word * (lit "/attachments/" * (word * (lit "/" * choice ["upload", "grants", "complete"]))))),
   ("GET", lit "/records/" *
     (word * (lit "/attachments/" * (word * (lit "/" * choice ["parts", "download"])))))]

/-- The characters that `URL.EscapedPath` leaves as they are. It escapes the others. -/
def pathChars : List Char := alphanumerics ++ "-_.~$&+,/:;=@!'()*[]%".toList

/-- Two separators in a row. -/
def doubled : List Char → Bool
  | a :: b :: rest => (a == '/' && b == '/') || doubled (b :: rest)
  | _ => false

/-- `unsafePath`. An escaped character has a percent sign in the escaped path. -/
def unsafePath (r : Request) : Bool :=
  !(['/'].isPrefixOf r.path) || !(r.path.all fun c => decide (c ∈ pathChars)) ||
    decide ('%' ∈ r.path) ||
    decide ('\\' ∈ r.path) || doubled r.path || ((r.path.drop 1).splitOn '/').any emptyOrDots

/-- `proxyRoute`: is the operation a transfer? -/
def proxyRoute (spaceId : List Char) (r : Request) : Except Refusal Bool :=
  if unsafePath r then .error operationNotAllowed
  else if controlRoute controls spaceId r then .ok false
  else if transferRoute spaceId r then .ok true
  else .error operationNotAllowed

/-- `ServeHTTP`, up to the credential. -/
def admitRequest (s : ProxySettings) (r : Request) : Except Refusal (List Char) := do
  if r.headers.any forbiddenHeader then throw ⟨400, "caller_credentials_forbidden"⟩
  let transfer ← proxyRoute s.spaceId r
  if transfer && r.query ≠ [] then throw ⟨400, "unexpected_transfer_query"⟩
  let limit := if transfer && r.method == "PUT" then s.maxPartBytes else s.maxControlBytes
  if r.contentLength.getD 0 < 0 ∨ r.contentLength.getD 0 > limit ∨ r.encoded then
    throw ⟨413, "request_too_large"⟩
  if transfer && r.method == "PUT" && r.contentLength.isNone then
    throw ⟨411, "content_length_required"⟩
  return (if transfer then s.gatewayEndpoint else s.exchangeEndpoint) ++ requestTarget r

end Go

namespace Python

def controls : List (String × Pattern) :=
  [("GET", 1),
   ("GET", lit "/membership"),
   ("GET", lit "/members"),
   ("GET", lit "/types"),
   ("GET", lit "/types/" * (name * (lit "/revisions/" * name))),
   ("GET", lit "/records"),
   ("POST", lit "/records"),
   ("GET", lit "/events"),
   ("GET", lit "/records/" * word),
   ("PATCH", lit "/records/" * word),
   ("DELETE", lit "/records/" * word),
   ("POST", lit "/records/" * (word * lit "/publish")),
   ("GET", lit "/refs/main"),
   ("PUT", lit "/refs/main"),
   ("POST", lit "/acquisitions"),
   ("GET", lit "/acquisitions/" * word),
   ("POST", lit "/acquisitions/" * (word * (lit "/" * choice ["renew", "abandon", "complete"]))),
   ("POST", lit "/records/" *
     (word * (lit "/attachments/" * (word * (lit "/" * choice ["upload", "grants", "complete"]))))),
   ("GET", lit "/records/" *
     (word * (lit "/attachments/" * (word * (lit "/" * choice ["parts", "download"])))))]

/-- `_route`: is the operation a transfer? -/
def route (spaceId : List Char) (r : Request) : Except Refusal Bool :=
  if '%' ∈ r.path ∨ '\\' ∈ r.path ∨ ((r.path.drop 1).splitOn '/').any emptyOrDots then
    .error operationNotAllowed
  else if controlRoute controls spaceId r then .ok false
  else if transferRoute spaceId r then .ok true
  else .error operationNotAllowed

/-- The handler of the proxy, up to the credential. -/
def admitRequest (s : ProxySettings) (r : Request) : Except Refusal (List Char) := do
  if r.headers.any forbiddenHeader then throw ⟨400, "caller_credentials_forbidden"⟩
  let transfer ← route s.spaceId r
  if transfer && r.query ≠ [] then throw ⟨400, "unexpected_transfer_query"⟩
  let limit := if transfer && r.method == "PUT" then s.maxPartBytes else s.maxControlBytes
  let declared := r.contentLength.getD 0
  if declared < 0 ∨ declared > limit ∨ r.encoded then throw ⟨413, "request_too_large"⟩
  if transfer && r.method == "PUT" && r.contentLength.isNone then
    throw ⟨411, "content_length_required"⟩
  return (if transfer then s.gatewayEndpoint else s.exchangeEndpoint) ++ requestTarget r

end Python

/-! ### The upload of a part -/

/-- The path of a part, as `transfer_client.py` builds it. -/
def partPath (space record attachment : List Char) (number : Nat) : List Char :=
  "/transfers/v1/spaces/".toList ++ space ++ "/records/".toList ++ record ++
    "/attachments/".toList ++ attachment ++ "/parts/".toList ++ Nat.toDigits 10 number

/-- The request that uploads a part of `length` bytes. -/
def putPart (space record attachment : List Char) (number : Nat) (length : Int) : Request where
  method := "PUT"
  path := partPath space record attachment number
  headers := ["content-length", "content-type"]
  contentLength := some length

/-- The identifiers of records and attachments: `NewID` makes them of hexadecimal digits. -/
def ResourceId (id : List Char) : Prop := id ≠ [] ∧ ∀ c ∈ id, c ∈ wordChars

/-- A segment that neither proxy objects to. -/
structure Segment (s : List Char) : Prop where
  chars : ∀ c ∈ s, c ∈ nameChars
  plain : emptyOrDots s = false

theorem resourceId_of_all {id : List Char} (h : id ≠ [] ∧ id.all (· ∈ wordChars) = true) :
    ResourceId id :=
  ⟨h.1, forall_mem_of_all h.2⟩

theorem slash_not_mem_nameChars : '/' ∉ nameChars := by decide

variable {s : List Char} {number : Nat}

theorem Segment.slash (h : Segment s) : '/' ∉ s := fun hs => slash_not_mem_nameChars (h.chars _ hs)

theorem Segment.ne_nil (h : Segment s) : s ≠ [] := by
  rintro rfl
  exact absurd h.plain (by decide)

theorem wordChars_subset : ∀ c ∈ wordChars, c ∈ nameChars ∧ c ≠ '.' := forall_mem_of_all (by decide)

theorem segment_of_words (h : ResourceId s) : Segment s where
  chars := fun c hc => (wordChars_subset c (h.2 c hc)).1
  plain := by
    have hdot : '.' ∉ s := fun hs => (wordChars_subset _ (h.2 _ hs)).2 rfl
    have hempty := h.1
    unfold emptyOrDots
    simp only [Bool.or_eq_false_iff, beq_eq_false_iff_ne]
    refine ⟨⟨hempty, ?_⟩, ?_⟩
    · rintro rfl
      exact hdot (by simp)
    · rintro rfl
      exact hdot (by simp)

theorem segment_of_identifier (h : s ∈ identifier.matches') : Segment s := by
  unfold identifier at h
  rw [matches'_mul, Language.mem_mul] at h
  obtain ⟨a, ha, b, hb, rfl⟩ := h
  obtain ⟨c, hc, rfl⟩ := (mem_oneOf _ a).mp ha
  have hfirst : ∀ c ∈ alphanumerics, c ∈ nameChars ∧ c ≠ '.' := forall_mem_of_all (by decide)
  have hrest := ((mem_atMost_oneOf _ _ b).mp hb).2
  constructor
  · rw [List.singleton_append, List.forall_mem_cons]
    exact ⟨(hfirst c hc).1, hrest⟩
  · -- The first character is not a dot.
    have hdot := (hfirst c hc).2
    unfold emptyOrDots
    simp [hdot]

theorem segment_of_digits (n : Nat) : Segment (Nat.toDigits 10 n) := by
  have hdigits : ∀ c ∈ digits, c ∈ wordChars := forall_mem_of_all (by decide)
  apply segment_of_words
  exact ⟨Nat.toDigits_ne_nil, fun c hc => hdigits c (mem_digits_of_mem_toDigits hc)⟩

/-- A path from its segments. -/
def joined (segments : List (List Char)) : List Char := segments.flatMap fun s => '/' :: s

theorem drop_joined (s : List Char) (rest : List (List Char)) :
    (joined (s :: rest)).drop 1 = ['/'].intercalate (s :: rest) := by
  induction rest generalizing s with
  | nil => simp [joined, List.intercalate]
  | cons t rest ih =>
    have h := ih t
    simp only [joined, List.flatMap_cons, List.cons_append, List.drop_succ_cons,
      List.drop_zero] at h ⊢
    rw [h]
    simp [List.intercalate, List.intersperse]

theorem splitOn_joined {rest : List (List Char)} (h : ∀ x ∈ s :: rest, Segment x) :
    ((joined (s :: rest)).drop 1).splitOn '/' = s :: rest := by
  rw [drop_joined]
  exact List.splitOn_intercalate '/' (fun x hx => (h x hx).slash) (List.cons_ne_nil _ _)

theorem doubled_skip {t : List Char} (hs : '/' ∉ s) (ht : Go.doubled t = false) :
    Go.doubled (s ++ t) = false := by
  induction s with
  | nil => exact ht
  | cons c s ih =>
    have hrest := ih fun h => hs (List.mem_cons_of_mem c h)
    have hc : c ≠ '/' := fun h => hs (h ▸ List.mem_cons_self)
    rw [List.cons_append]
    cases hst : s ++ t with
    | nil => rfl
    | cons d rest =>
      rw [hst] at hrest
      simp [Go.doubled, hc, hrest]

theorem doubled_joined {segments : List (List Char)} (h : ∀ x ∈ segments, Segment x) :
    Go.doubled (joined segments) = false := by
  induction segments with
  | nil => rfl
  | cons s rest ih =>
    rw [List.forall_mem_cons] at h
    obtain ⟨hs, hrest⟩ := h
    have hskip := doubled_skip hs.slash (ih hrest)
    show Go.doubled ('/' :: (s ++ joined rest)) = false
    cases s with
    | nil => exact absurd rfl hs.ne_nil
    | cons c s =>
      have hc : c ≠ '/' := fun he => hs.slash (he ▸ List.mem_cons_self)
      rw [List.cons_append] at hskip ⊢
      simp [Go.doubled, hc, hskip]

theorem mem_joined {segments : List (List Char)} (h : ∀ x ∈ segments, Segment x) {c : Char}
    (hc : c ∈ joined segments) :
    c ∈ '/' :: nameChars := by
  obtain ⟨s, hs, hc⟩ := List.mem_flatMap.mp hc
  rcases List.mem_cons.mp hc with rfl | hc
  · exact List.mem_cons_self
  · exact List.mem_cons_of_mem _ ((h s hs).chars c hc)

/-- What the proxies look for in a path is not in one of good segments. -/
theorem safe_of_segments {rest : List (List Char)} (h : ∀ x ∈ s :: rest, Segment x) (r : Request)
    (hpath : r.path = joined (s :: rest)) :
    Go.unsafePath r = false ∧
      ¬ ('%' ∈ r.path ∨ '\\' ∈ r.path ∨ ((r.path.drop 1).splitOn '/').any emptyOrDots = true) := by
  have hchars : ∀ c ∈ '/' :: nameChars, c ∈ Go.pathChars ∧ c ≠ '%' ∧ c ≠ '\\' :=
    forall_mem_of_all (by decide)
  have hall : r.path.all (fun c => decide (c ∈ Go.pathChars)) = true := by
    rw [List.all_eq_true]
    intro c hc
    exact decide_eq_true (hchars c (mem_joined h (hpath ▸ hc))).1
  have hpercent : '%' ∉ r.path := fun hc => (hchars _ (mem_joined h (hpath ▸ hc))).2.1 rfl
  have hback : '\\' ∉ r.path := fun hc => (hchars _ (mem_joined h (hpath ▸ hc))).2.2 rfl
  have hsegments : ((r.path.drop 1).splitOn '/').any emptyOrDots = false := by
    rw [hpath, splitOn_joined h, List.any_eq_false]
    intro x hx
    rw [(h x hx).plain]
    exact Bool.false_ne_true
  have hslash : ['/'].isPrefixOf r.path = true := by
    rw [hpath]
    rfl
  have hdoubled : Go.doubled r.path = false := by
    rw [hpath]
    exact doubled_joined h
  unfold Go.unsafePath
  rw [hslash, hall, hsegments, hdoubled, decide_eq_false hpercent, decide_eq_false hback]
  exact ⟨rfl, by simp [hpercent, hback]⟩

theorem partPath_eq (space record attachment : List Char) (number : Nat) :
    partPath space record attachment number = joined ["transfers".toList, "v1".toList,
    "spaces".toList, space, "records".toList, record, "attachments".toList,
        attachment, "parts".toList, Nat.toDigits 10 number] := by
  have hspaces : "/transfers/v1/spaces/".toList =
      '/' :: "transfers".toList ++ '/' :: "v1".toList ++ '/' :: "spaces".toList ++
        ['/'] := by decide
  have hrecords : "/records/".toList = '/' :: "records".toList ++ ['/'] := by decide
  have hattachments : "/attachments/".toList = '/' :: "attachments".toList ++ ['/'] := by decide
  have hparts : "/parts/".toList = '/' :: "parts".toList ++ ['/'] := by decide
  unfold partPath joined
  rw [hspaces, hrecords, hattachments, hparts]
  simp only [List.flatMap_cons, List.flatMap_nil, List.append_assoc, List.cons_append,
    List.nil_append, List.append_nil]

theorem numeral_slash {l : List Char}
    (h : l ∈ (oneOf nonzeroDigits * atMost (oneOf digits) 3).matches') : '/' ∉ l := by
  have hfirst : '/' ∉ nonzeroDigits := by decide
  have hrest : '/' ∉ digits := by decide
  rw [matches'_mul, Language.mem_mul] at h
  obtain ⟨a, ha, b, hb, rfl⟩ := h
  obtain ⟨c, hc, rfl⟩ := (mem_oneOf _ a).mp ha
  intro hmem
  rcases List.mem_cons.mp hmem with rfl | hmem
  · exact hfirst hc
  · exact hrest (((mem_atMost_oneOf _ _ b).mp hb).2 _ hmem)

/-- Which part numbers the pattern of a transfer matches. -/
theorem putTransfer_iff {record attachment : List Char} (hr : ResourceId record)
    (ha : ResourceId attachment) (hn : 0 < number) :
    rmatch putTransfer
      (record ++ ("/attachments/".toList ++
      (attachment ++ ("/parts/".toList ++ Nat.toDigits 10 number)))) = true ↔
      number ≤ 9999 := by
  rw [rmatch_iff_matches', show number ≤ 9999 ↔ number < 10 ^ (3 + 1) by omega, ← mem_numeral hn]
  unfold putTransfer word lit
  simp only [matches'_mul, Language.mem_mul, mem_text, mem_oneOrMore_oneOf]
  constructor
  · rintro ⟨a, -, b, ⟨-, rfl, c, ⟨d, -, e, ⟨-, rfl, numeral, hnumeral, rfl⟩, rfl⟩, rfl⟩, heq⟩
    -- Both paths end in their numeral, which has no separator.
    have hslash : '/' ∉ Nat.toDigits 10 number := (segment_of_digits number).slash
    have hslash' : '/' ∉ numeral := numeral_slash (Language.mem_mul.mpr hnumeral)
    rw [show "/parts/".toList = "/parts".toList ++ ['/'] by decide] at heq
    have hsame : numeral = Nat.toDigits 10 number := by
      apply last_segment (a := a ++ ("/attachments/".toList ++ (d ++ "/parts".toList)))
        (c := record ++ ("/attachments/".toList ++ (attachment ++ "/parts".toList))) _
          hslash' hslash
      simpa only [List.append_assoc, List.cons_append, List.nil_append] using heq
    rw [← hsame]
    exact Language.mem_mul.mpr hnumeral
  · intro h
    exact ⟨record, hr, _,
      ⟨_, rfl, _, ⟨attachment, ha, _, ⟨_, rfl, _, Language.mem_mul.mp h, rfl⟩, rfl⟩, rfl⟩, rfl⟩

section
variable {space record attachment : List Char} {number : Nat} (length : Int)

theorem transferRoute_putPart (hr : ResourceId record) (ha : ResourceId attachment)
    (hn : 0 < number) :
    transferRoute space (putPart space record attachment number length) =
      decide (number ≤ 9999) := by
  have hpath : (putPart space record attachment number length).path =
      ("/transfers/v1/spaces/".toList ++ space ++ "/records/".toList) ++
        (record ++ ("/attachments/".toList ++
          (attachment ++ ("/parts/".toList ++ Nat.toDigits 10 number)))) := by
    show partPath space record attachment number = _
    unfold partPath
    simp only [List.append_assoc]
  have hput : (putPart space record attachment number length).method = "PUT" := rfl
  unfold transferRoute
  dsimp only
  rw [hpath, hput, List.drop_left, List.isPrefixOf_iff_prefix.mpr (List.prefix_append _ _)]
  simp only [beq_self_eq_true, Bool.true_and, show ("PUT" == "GET") = false by decide,
    show ("PUT" == "HEAD") = false by decide, Bool.or_self, Bool.false_and, Bool.or_false]
  rw [Bool.eq_iff_iff, putTransfer_iff hr ha hn, decide_eq_true_iff]

/-- A transfer is no control operation. -/
theorem controlRoute_putPart (controls : List (String × Pattern)) :
    controlRoute controls space (putPart space record attachment number length) = false := by
  have hhead : "/transfers/v1/spaces/".toList = '/' :: 't' ::
      "ransfers/v1/spaces/".toList := by decide
  have hspace : "/v2/spaces/".toList = '/' :: 'v' :: "2/spaces/".toList := by decide
  have hne : ('t' == 'v') = false := by decide
  have hne' : ('v' == 't') = false := by decide
  unfold controlRoute putPart partPath
  rw [hhead, hspace]
  simp only [List.cons_append, List.isPrefixOf_cons_cons, beq_self_eq_true, Bool.true_and, hne',
    Bool.false_and, Bool.or_false]
  rw [show ('/' :: 't' :: _ == '/' :: 'v' :: _) = false from by
    rw [List.cons_beq_cons, List.cons_beq_cons, hne, Bool.false_and, Bool.and_false]]
  rfl

variable (hspace : space ∈ identifier.matches') (hr : ResourceId record)
  (ha : ResourceId attachment)
include hspace hr ha

theorem putPart_safe : Go.unsafePath (putPart space record attachment number length) = false ∧
      ¬ ('%' ∈ (putPart space record attachment number length).path ∨
        '\\' ∈ (putPart space record attachment number length).path ∨
        (((putPart space record attachment number length).path.drop 1).splitOn '/').any
          emptyOrDots = true) := by
  apply safe_of_segments _ _ (partPath_eq space record attachment number)
  have hfixed : ∀ w ∈ ["transfers", "v1", "spaces", "records", "attachments", "parts"],
      ResourceId w.toList :=
    fun w hw => resourceId_of_all (by revert w; decide)
  intro x hx
  simp only [List.mem_cons, List.not_mem_nil, or_false] at hx
  rcases hx with rfl | rfl | rfl | rfl | rfl | rfl | rfl | rfl | rfl | rfl
  · exact segment_of_words (hfixed "transfers" (by simp))
  · exact segment_of_words (hfixed "v1" (by simp))
  · exact segment_of_words (hfixed "spaces" (by simp))
  · exact segment_of_identifier hspace
  · exact segment_of_words (hfixed "records" (by simp))
  · exact segment_of_words hr
  · exact segment_of_words (hfixed "attachments" (by simp))
  · exact segment_of_words ha
  · exact segment_of_words (hfixed "parts" (by simp))
  · exact segment_of_digits number

variable (hn : 0 < number)
include hn

theorem go_route : Go.proxyRoute space (putPart space record attachment number length) =
      if number ≤ 9999 then .ok true else .error operationNotAllowed := by
  unfold Go.proxyRoute
  rw [(putPart_safe length hspace hr ha).1, controlRoute_putPart,
    transferRoute_putPart length hr ha hn]
  simp

theorem python_route : Python.route space (putPart space record attachment number length) =
      if number ≤ 9999 then .ok true else .error operationNotAllowed := by
  unfold Python.route
  rw [if_neg (putPart_safe length hspace hr ha).2, controlRoute_putPart,
    transferRoute_putPart length hr ha hn]
  simp

end

/-- What either proxy does with the upload of a part, by its route. -/
theorem admit_putPart (s : ProxySettings) {record attachment : List Char} {length : Int}
    (hspace : s.spaceId ∈ identifier.matches') (hr : ResourceId record) (ha : ResourceId attachment)
    (hn : 0 < number) (hlen : 0 ≤ length) :
    let r := putPart s.spaceId record attachment number length
    let answer := if number ≤ 9999 then
        if length ≤ s.maxPartBytes then .ok (s.gatewayEndpoint ++ r.path)
        else .error ⟨413, "request_too_large"⟩
      else .error operationNotAllowed
    Go.admitRequest s r = answer ∧ Python.admitRequest s r = answer := by
  intro r answer
  have hheaders : r.headers.any forbiddenHeader = false := by
    show ["content-length", "content-type"].any forbiddenHeader = false
    decide
  have hgo : Go.proxyRoute s.spaceId r = _ := go_route length hspace hr ha hn
  have hpython : Python.route s.spaceId r = _ := python_route length hspace hr ha hn
  have hquery : r.query = [] := rfl
  have hput : (r.method == "PUT") = true := rfl
  have hdeclared : r.contentLength = some length := rfl
  have hencoded : r.encoded = false := rfl
  unfold Go.admitRequest Python.admitRequest answer requestTarget
  rw [hheaders, hgo, hpython]
  by_cases h : number ≤ 9999
  · by_cases hfits : length ≤ s.maxPartBytes
    · have hover : ¬ (length < 0 ∨ s.maxPartBytes < length) := by omega
      simp [h, hfits, hquery, hput, hdeclared, hencoded, hover, bind, Except.bind, pure,
        Except.pure]
    · simp [h, hfits, hquery, hput, hdeclared, hencoded, bind, Except.bind, throw, throwThe,
        MonadExceptOf.throw]
  · simp [h, bind, Except.bind]

/-- A part that the Exchange has for a blob: its number and its size. -/
theorem part_of_partSizeFor {configured size : Int} (hconfigured : AdmissiblePartSize configured)
    (hsize : AdmissibleSize size) {length : Int}
    (hpart : (Exchange.Transfers.Go.partSizeFor number size
      (Exchange.Transfers.Go.partSize configured size).value).value = .ok length) :
    0 < number ∧ 0 ≤ length := by
  obtain ⟨c, rfl⟩ :=
    Int.eq_ofNat_of_zero_le (show 0 ≤ configured by unfold AdmissiblePartSize at hconfigured; omega)
  obtain ⟨n, rfl⟩ := Int.eq_ofNat_of_zero_le hsize.1
  unfold AdmissiblePartSize at hconfigured
  unfold AdmissibleSize at hsize
  have hsmall : n ≤ 5 * 1024 ^ 4 := by omega
  rw [Exchange.Transfers.go_partSize hsmall] at hpart
  have hpos : 0 < Exchange.Transfers.chosenPart c n := Exchange.Transfers.chosenPart_pos (by omega)
  have hbig : Exchange.Transfers.chosenPart c n ≤ 5368709120 :=
    Exchange.Transfers.chosenPart_le (by omega) hsmall
  have hfor := Exchange.Transfers.go_partSizeFor hpos hsmall hbig number
  have hat : partAt _ (number : Int) = .ok length := (congrArg (·.value) hfor).symm.trans hpart
  rcases Exchange.Transfers.partAt_cases n (Exchange.Transfers.chosenPart c n) number with
    ⟨i, hi, -, hok⟩ | ⟨-, herr⟩
  · rw [hok] at hat
    have := Except.ok.inj hat
    omega
  · rw [herr] at hat
    exact absurd hat (by simp)

/-- The upload of a part that the Exchange has for an admissible attachment is routed to the gateway
by both proxies exactly when its number has at most four digits. It goes on to one and the same
target exactly when it is also no longer than the proxies' limit for a part. -/
theorem part_upload_forwarded_iff (s : ProxySettings) (record attachment : List Char)
    (configured size : Int) (number : Nat) (length : Int) (hspace : s.spaceId ∈ identifier.matches')
    (hrecord : ResourceId record) (hattachment : ResourceId attachment)
    (hconfigured : AdmissiblePartSize configured) (hsize : AdmissibleSize size)
    (hpart : (Exchange.Transfers.Go.partSizeFor number size
      (Exchange.Transfers.Go.partSize configured size).value).value = .ok length) :
    let r := putPart s.spaceId record attachment number length
    ((Go.proxyRoute s.spaceId r = .ok true ∧ Python.route s.spaceId r = .ok true) ↔ number ≤ 9999) ∧
    ((∃ target, Go.admitRequest s r = .ok target ∧ Python.admitRequest s r = .ok target) ↔
      number ≤ 9999 ∧ length ≤ s.maxPartBytes) := by
  intro r
  obtain ⟨hn, hlen⟩ := part_of_partSizeFor hconfigured hsize hpart
  have hgo : Go.proxyRoute s.spaceId r = _ := go_route length hspace hrecord hattachment hn
  have hpython : Python.route s.spaceId r = _ := python_route length hspace hrecord hattachment hn
  obtain ⟨hgoAdmit, hpythonAdmit⟩ := admit_putPart s hspace hrecord hattachment hn hlen
  refine ⟨?_, ?_⟩
  · rw [hgo, hpython]
    by_cases h : number ≤ 9999 <;> simp [h]
  · rw [hgoAdmit, hpythonAdmit]
    by_cases h : number ≤ 9999
    · by_cases hfits : length ≤ s.maxPartBytes <;> simp [h, hfits]
    · simp [h]

/-- A small attachment in parts of 5 MiB, with the default limits. -/
def shownSettings : ProxySettings where
  spaceId := "s1".toList
  exchangeEndpoint := "https://exchange".toList
  gatewayEndpoint := "https://gateway".toList

theorem shownSettings_space : shownSettings.spaceId ∈ identifier.matches' := by
  unfold identifier
  rw [matches'_mul, Language.mem_mul]
  refine ⟨['s'], (mem_oneOf _ _).mpr ⟨'s', by decide, rfl⟩, ['1'],
    (mem_atMost_oneOf _ _ _).mpr ⟨by decide, forall_mem_of_all (by decide)⟩, rfl⟩

theorem shown_words : ResourceId "r1".toList ∧ ResourceId "a1".toList :=
  ⟨resourceId_of_all (by decide), resourceId_of_all (by decide)⟩

theorem part_upload_forwarded_last_of_four_digits :
    ∃ target, Go.admitRequest shownSettings
      (putPart "s1".toList "r1".toList "a1".toList 9999 5242880) = .ok target ∧
      Python.admitRequest shownSettings (putPart "s1".toList "r1".toList "a1".toList 9999 5242880) =
        .ok target := by
  have h := part_upload_forwarded_iff shownSettings "r1".toList "a1".toList 5242880 52423557121 9999
    5242880 shownSettings_space
    shown_words.1 shown_words.2 ⟨by decide, by decide⟩ ⟨by decide, by decide⟩ (by decide +kernel)
  exact h.2.mpr ⟨by decide, by decide⟩

/-- Part 10000 is one of the parts of the attachment, and no proxy lets it through. -/
theorem part_ten_thousand_refused :
    AdmissiblePartSize 5242880 ∧ AdmissibleSize 52423557121 ∧
      shownSettings.spaceId ∈ identifier.matches' ∧
    Exchange.Transfers.Go.partSize 5242880 52423557121 = ⟨5242880, true⟩ ∧
    Exchange.Transfers.Go.partSizeFor 10000 52423557121 5242880 = ⟨.ok 1, true⟩ ∧
    Go.proxyRoute "s1".toList (putPart "s1".toList "r1".toList "a1".toList 10000 1) =
      .error operationNotAllowed ∧
    Python.route "s1".toList (putPart "s1".toList "r1".toList "a1".toList 10000 1) =
      .error operationNotAllowed := by
  refine ⟨⟨by decide, by decide⟩, ⟨by decide, by decide⟩,
    shownSettings_space, by decide +kernel, by decide +kernel, ?_, ?_⟩
  · exact go_route 1 shownSettings_space shown_words.1 shown_words.2 (by decide)
  · exact python_route 1 shownSettings_space shown_words.1 shown_words.2 (by decide)

end Hf2l.Jobs.Transfer
