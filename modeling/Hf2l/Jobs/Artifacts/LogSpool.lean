import Hf2l.Jobs.Artifacts.LogStream
import Hf2l.Lib.Run
import Hf2l.Lib.Utf8
import Mathlib.Data.List.Infix

/-!
# `Hf2l.Jobs.Artifacts.LogSpool`: the canonical log of a component

`internal/artifacts/logs.go`, `CanonicalLogSpool`. A spool is a directory with the log
(`stdout.log`) and a cursor (`cursor.json`) that says how much of it is committed. `Update` gets a
snapshot of the container's log, cuts off what an earlier call has left behind the committed part,
appends what is new in the snapshot, and replaces the cursor by a rename.

A call takes the directory through a list of states, so a process that dies leaves one of them.
`stdout.log` grows by one byte at a time there, and `cursor.pending` is only known to be there or
not. The text of `cursor.json` is a record of its fields, with the defaults for those it does not
have; a cursor is never over 32768 bytes, since its anchor is at most 256. A call that holds the
lock of the directory is alone.

The digest is a parameter that has no collisions.
-/

set_option autoImplicit false

namespace Hf2l.Jobs.Artifacts

open Lib Lib.Utf8 Lib.Checked

def logGap : List UInt8 := bytes "\n[log capture gap: earlier rotated output unavailable]\n"

def logLimit : List UInt8 := bytes "\n[log output truncated at the execution log limit]\n"

/-! ### UTF-8 in Go -/

/-- `utf8.first`: how many bytes the encoding has that a byte starts, and the bounds of its second
byte. -/
def leads (b : Nat) : Nat × Nat × Nat :=
  if b < 0xC2 then (1, 0x80, 0xBF)
  else if b < 0xE0 then (2, 0x80, 0xBF)
  else if b = 0xE0 then (3, 0xA0, 0xBF)
  else if b = 0xED then (3, 0x80, 0x9F)
  else if b < 0xF0 then (3, 0x80, 0xBF)
  else if b = 0xF0 then (4, 0x90, 0xBF)
  else if b < 0xF4 then (4, 0x80, 0xBF)
  else if b = 0xF4 then (4, 0x80, 0x8F)
  else (1, 0x80, 0xBF)

/-- `utf8.FullRune`: the bytes start with an encoding, or with no start of an encoding. -/
def fullRune : List UInt8 → Bool
  | [] => false
  | b :: rest =>
    let (size, low, high) := leads b.toNat
    decide (size ≤ rest.length + 1) ||
      rest.head?.any (fun c => decide (c.toNat < low ∨ high < c.toNat)) ||
      rest.tail.head?.any (fun c => decide (c.toNat < 0x80 ∨ 0xBF < c.toNat))

/-- `strings.ToValidUTF8`: a run of bytes that are no text becomes one U+FFFD. -/
def toValidUtf8 : Nat → Bool → List UInt8 → List Char
  | 0, _, _ => []
  | fuel + 1, bad, raw =>
    if raw = [] then []
    else
      match decodeChar raw with
      | some c => c :: toValidUtf8 fuel false (raw.drop c.utf8Size)
      | none =>
        if bad then toValidUtf8 fuel true raw.tail else '\uFFFD' :: toValidUtf8 fuel true raw.tail

/-- `utf8Prefix` of bytes: it drops the last byte until the rest is text. -/
def utf8PrefixBytes (raw : List UInt8) (maximum : Nat) : List UInt8 :=
  ((raw.take maximum).inits.reverse.find? fun p => p.toByteArray.validateUTF8).getD []

/-- `strings.LastIndex`. -/
def lastIndex (s part : List UInt8) : Option Nat :=
  (List.range (s.length + 1)).reverse.find? fun i => part.isPrefixOf (s.drop i)

/-! ### The directory -/

section
variable (δ : Type)

structure SpoolCursor where
  length : Option Nat := none
  snapshotSha : Option δ := none
  snapshotLength : Nat := 0
  snapshotAnchor : List UInt8 := []
  snapshotEntryLength : Nat := 0
  snapshotEntrySha : Option δ := none
  complete : Bool := false
  truncated : Bool := false
  limited : Bool := false

structure Spool where
  stdout : Option (List UInt8) := none
  cursor : SpoolCursor δ := {}
  pending : Bool := false

end

section
variable {δ : Type} [DecidableEq δ] (digest : List UInt8 → δ) (maximum : Nat)

/-- `storedCount(metadata, "length", 0)`. -/
def SpoolCursor.committed (m : SpoolCursor δ) : Nat := m.length.getD 0

def Spool.file (s : Spool δ) : List UInt8 := s.stdout.getD []

/-- The committed content. -/
def Spool.content (s : Spool δ) : List UInt8 := s.file.take s.cursor.committed

/-- What is new in a snapshot, and that the log has a gap before it. -/
def addition (m : SpoolCursor δ) (snapshot : List UInt8) : List UInt8 × Bool :=
  if m.snapshotSha = some (digest snapshot) ∨ m.limited then ([], false)
  else
    match m.snapshotSha with
    | none => (snapshot, false)
    | some previous =>
      if m.snapshotLength ≤ snapshot.length ∧
        digest (snapshot.take m.snapshotLength) = previous then
        (snapshot.drop m.snapshotLength, false)
      else
        match if m.snapshotAnchor = [] then none else lastIndex snapshot m.snapshotAnchor with
        | none => (logGap ++ snapshot, true)
        | some index =>
          if 0 < m.snapshotEntryLength ∧ index + m.snapshotEntryLength ≤ snapshot.length ∧
              some (digest ((snapshot.drop index).take m.snapshotEntryLength)) =
                m.snapshotEntrySha then
            (snapshot.drop (index + m.snapshotEntryLength), false)
          else (logGap ++ snapshot, true)

/-- What is appended of an addition for which there is so much room. -/
def bounded (room : Nat) (new : List UInt8) : List UInt8 :=
  if new.length ≤ room then new
  else
    let start := utf8PrefixBytes new (room - logLimit.length)
    if logLimit.length ≤ room - start.length then start ++ logLimit else start

/-- The last line of a text, with the line ends after it. -/
def lastEntry (cs : List Char) : List Char :=
  let trimmed := cs.reverse.dropWhile (· == '\n')
  cs.drop (trimmed.length - (trimmed.takeWhile (· != '\n')).length)

/-- The states that the directory goes through while `spoolSave` replaces the cursor. -/
def spoolSave (s : Spool δ) (m : SpoolCursor δ) : List (Spool δ) :=
  [{ s with pending := false }, { s with pending := true },
    { s with pending := false, cursor := m }]

/-- The cursor that `Update` writes. -/
def newCursor (m : SpoolCursor δ) (snapshot : List Char) (complete : Bool) (room : Nat)
    (appended : Nat) : SpoolCursor δ :=
  let new := addition digest m (encode snapshot)
  let full := decide (room < new.1.length)
  { length := some (m.committed + appended)
    snapshotSha := some (digest (encode snapshot))
    snapshotLength := (encode snapshot).length
    snapshotAnchor := utf8PrefixBytes (encode (lastEntry snapshot)) 256
    snapshotEntryLength := (encode (lastEntry snapshot)).length
    snapshotEntrySha := some (digest (encode (lastEntry snapshot)))
    complete := complete || m.complete
    truncated := m.truncated || new.2 || full
    limited := m.limited || full }

/-- `Update`: the states that the directory goes through, and what it is refused with. -/
def Spool.update (s : Spool δ) (redactedSnapshot : List UInt8) (complete : Bool) :
    List (Spool δ) × Option Refusal :=
  let snapshot := toValidUtf8 redactedSnapshot.length false redactedSnapshot
  let m := s.cursor
  if (encode snapshot).length > 4 * 2 ^ 20 then ([], some ⟨422, "log_snapshot_exceeds_bound"⟩)
  else if s.file.length > maximum then ([], some ⟨409, "unsafe_log_file"⟩)
  else if s.file.length < m.committed then
    ([{ s with stdout := some s.file }], some ⟨409, "unsafe_log_file"⟩)
  else
    let new := bounded (maximum - m.committed) (addition digest m (encode snapshot)).1
    let written (p : List UInt8) : Spool δ := { s with stdout := some (s.content ++ p) }
    ({ s with stdout := some s.file } :: new.inits.map written ++
      spoolSave (written new)
        (newCursor digest m snapshot complete (maximum - m.committed) new.length), none)

/-- `MarkComplete`. -/
def Spool.markComplete (s : Spool δ) : List (Spool δ) :=
  spoolSave s { s.cursor with complete := true, length := some s.cursor.committed }

/-- The loop of `Read`: the characters that some bytes start with, up to one that is not all
there. -/
def decodeRunes : Nat → List UInt8 → Option (List Char)
  | 0, _ => some []
  | fuel + 1, raw =>
    if raw = [] then some []
    else
      match decodeChar raw with
      | some c => (decodeRunes fuel (raw.drop c.utf8Size)).map (c :: ·)
      | none => if fullRune raw then none else some []

/-- `Read`. -/
def Spool.read (n : Naming) (s : Spool δ) (identity : LogIdentity) (offset maxBytes : Int) :
    Except Refusal LogReceipt := do
  identity.validate n
  if offset < 0 ∨ maxBytes < 4 ∨ maxBytes > maxLogChunkBytes then throw ⟨422, "invalid_log_cursor"⟩
  let length := s.cursor.committed
  if length > maximum ∨ offset > length then throw cursorConflict
  let size := min maxBytes (length - offset)
  let raw := (s.file.drop offset.toNat).take size.toNat
  if (s.stdout = none ∧ length ≠ 0) ∨ s.file.length > maximum ∨ raw.length ≠ size.toNat then
    throw ⟨409, "unsafe_log_file"⟩
  match decodeRunes raw.length raw with
  | none => throw cursorConflict
  | some cs =>
    let next := offset + (encode cs).length
    return ⟨identity, n.key identity, offset, next, String.ofList cs,
      s.cursor.complete && decide (next = length), s.cursor.truncated⟩

/-- A call, and after how many of its states the process dies. -/
inductive SpoolAction where
  | update (redactedSnapshot : List UInt8) (complete : Bool) (died : Option Nat)
  | markComplete (died : Option Nat)

/-- The state that a call leaves. -/
def leave (s : Spool δ) (states : List (Spool δ)) : Option Nat → Spool δ
  | none => states.getLast?.getD s
  | some k => (states.take k).getLast?.getD s

def spoolStep (s : Spool δ) : SpoolAction → Spool δ
  | .update snapshot complete died => leave s (s.update digest maximum snapshot complete).1 died
  | .markComplete died => leave s s.markComplete died

end

/-! ### Texts -/

theorem leads_two {n : Nat} (hlow : 0xC2 ≤ n) (hhigh : n < 0xE0) : leads n = (2, 0x80, 0xBF) := by
  rw [leads, if_neg (by omega), if_pos hhigh]

theorem leads_three {n s : Nat} (hn : 0xE0 ≤ n ∧ n < 0xF0) (hs : 0x80 ≤ s ∧ s ≤ 0xBF)
    (hfirst : n = 0xE0 → 0xA0 ≤ s) (hsurrogate : n = 0xED → s ≤ 0x9F) :
    (leads n).1 = 3 ∧ (leads n).2.1 ≤ s ∧ s ≤ (leads n).2.2 := by
  rw [leads, if_neg (by omega), if_neg (by omega)]
  by_cases h₀ : n = 0xE0
  · rw [if_pos h₀]
    exact ⟨rfl, hfirst h₀, hs.2⟩
  · rw [if_neg h₀]
    by_cases h₁ : n = 0xED
    · rw [if_pos h₁]
      exact ⟨rfl, hs.1, hsurrogate h₁⟩
    · rw [if_neg h₁, if_pos hn.2]
      exact ⟨rfl, hs⟩

theorem leads_four {n s : Nat} (hn : 0xF0 ≤ n ∧ n ≤ 0xF4) (hs : 0x80 ≤ s ∧ s ≤ 0xBF)
    (hfirst : n = 0xF0 → 0x90 ≤ s) (hlast : n = 0xF4 → s ≤ 0x8F) :
    (leads n).1 = 4 ∧ (leads n).2.1 ≤ s ∧ s ≤ (leads n).2.2 := by
  rw [leads, if_neg (by omega), if_neg (by omega), if_neg (by omega), if_neg (by omega),
    if_neg (by omega)]
  by_cases h₀ : n = 0xF0
  · rw [if_pos h₀]
    exact ⟨rfl, hfirst h₀, hs.2⟩
  · rw [if_neg h₀]
    by_cases h₁ : n < 0xF4
    · rw [if_pos h₁]
      exact ⟨rfl, hs⟩
    · rw [if_neg h₁, if_pos (by omega)]
      exact ⟨rfl, hs.1, hlast (by omega)⟩

/-- What `leads` says of the first byte of an encoding is right. -/
theorem leads_encode (c : Char) :
    ∃ b rest, String.utf8EncodeChar c = b :: rest ∧ (leads b.toNat).1 = rest.length + 1 ∧
      ∀ x ∈ rest.head?, (leads b.toNat).2.1 ≤ x.toNat ∧ x.toNat ≤ (leads b.toNat).2.2 := by
  have hvalid : c.val.toNat < 55296 ∨ 57343 < c.val.toNat ∧ c.val.toNat < 1114112 := c.valid
  unfold String.utf8EncodeChar
  dsimp only
  generalize c.val.toNat = m at hvalid
  have hbyte {j : Nat} (hj : j < 256) : (UInt8.ofNat j).toNat = j := UInt8.toNat_ofNat_of_lt' hj
  have hlong {n s : Nat} {rest : List UInt8} (hn : n < 256) (hs : s < 256)
      (hlead : (leads n).1 = rest.length + 2 ∧ (leads n).2.1 ≤ s ∧ s ≤ (leads n).2.2) :
      ∃ b tail, UInt8.ofNat n :: UInt8.ofNat s :: rest = b :: tail ∧
        (leads b.toNat).1 = tail.length + 1 ∧ ∀ x ∈ tail.head?, (leads b.toNat).2.1 ≤ x.toNat ∧
        x.toNat ≤ (leads b.toNat).2.2 := by
    refine ⟨_, _, rfl, ?_, fun x hx => ?_⟩
    · rw [hbyte hn]
      exact hlead.1
    · obtain rfl := Option.some.inj hx
      rw [hbyte hn, hbyte hs]
      exact hlead.2
  split
  case isTrue =>
    refine ⟨_, [], rfl, ?_, by simp⟩
    rw [hbyte (by omega), leads, if_pos (by omega)]
    rfl
  case isFalse =>
    split
    case isTrue =>
      refine hlong (by omega) (by omega) ?_
      rw [leads_two (by omega) (by omega)]
      dsimp only
      exact ⟨rfl, by omega⟩
    case isFalse =>
      split
      case isTrue =>
        exact hlong (by omega) (by omega)
          (leads_three (by omega) (by omega) (by omega) (by omega))
      case isFalse =>
        exact hlong (by omega) (by omega)
          (leads_four (by omega) (by omega) (by omega) (by omega))

/-- A start of an encoding is not a full rune. -/
theorem fullRune_short (c : Char) {k : Nat} (hpos : 0 < k)
    (hk : k < (String.utf8EncodeChar c).length) :
    fullRune ((String.utf8EncodeChar c).take k) = false := by
  obtain ⟨b, rest, he, hsize, hsecond⟩ := leads_encode c
  obtain ⟨j, rfl⟩ : ∃ j, k = j + 1 := ⟨k - 1, by omega⟩
  rw [he, List.length_cons] at hk
  rw [he, List.take_succ_cons]
  simp only [fullRune, Bool.or_eq_false_iff, decide_eq_false_iff_not, List.length_take,
    Option.any_eq_false]
  refine ⟨⟨by omega, fun x hx => ?_⟩, fun x hx => ?_⟩
  · have hmem : x ∈ rest.head? := by
      cases j with
      | zero => cases hx
      | succ j =>
        cases rest with
        | nil => cases hx
        | cons y rest => exact hx
    have hbounds := hsecond x hmem
    simp
    omega
  · have hmem : x ∈ rest := List.mem_of_mem_take (List.mem_of_mem_tail (List.mem_of_head? hx))
    obtain ⟨b', rest', he', -, hrest⟩ := utf8EncodeChar_shape c
    obtain ⟨-, rfl⟩ := List.cons.inj (he.symm.trans he')
    have hcont := hrest x hmem
    unfold Continuation at hcont
    simp
    omega

/-- **What `Read` decodes of a start of a text** is the longest start of the text that is all
there. -/
theorem decodeRunes_take (cs : List Char) (n fuel : Nat)
    (hfuel : ((encode cs).take n).length ≤ fuel) :
    decodeRunes fuel ((encode cs).take n) = some (takeBytes cs n) := by
  induction cs generalizing n fuel with
  | nil => cases fuel <;> simp [encode, decodeRunes, takeBytes]
  | cons c cs ih =>
    have hlen : (String.utf8EncodeChar c).length = c.utf8Size := String.length_utf8EncodeChar c
    have hpos : 0 < c.utf8Size := Char.utf8Size_pos c
    rw [encode_cons] at hfuel ⊢
    by_cases hfits : c.utf8Size ≤ n
    · rw [List.take_append, List.take_of_length_le (hlen ▸ hfits), hlen] at hfuel ⊢
      rw [List.length_append, hlen] at hfuel
      obtain ⟨fuel, rfl⟩ : ∃ f, fuel = f + 1 := ⟨fuel - 1, by omega⟩
      have hne : String.utf8EncodeChar c ++ (encode cs).take (n - c.utf8Size) ≠ [] :=
        List.append_ne_nil_of_left_ne_nil String.utf8EncodeChar_ne_nil _
      rw [decodeRunes, if_neg hne, decodeChar_encode]
      dsimp only
      rw [← hlen, List.drop_left, hlen, ih _ _ (by omega), takeBytes, if_pos (by omega),
        Option.map_some, Int.ofNat_sub hfits]
    · have hshort : n < (String.utf8EncodeChar c).length := by omega
      rw [List.take_append_of_le_length (by omega), takeBytes, if_neg (by omega)]
      rcases Nat.eq_zero_or_pos n with rfl | hn
      · cases fuel <;> simp [decodeRunes]
      · have hraw : ((String.utf8EncodeChar c).take n).length = n := by rw [List.length_take]; omega
        obtain ⟨fuel, rfl⟩ : ∃ f, fuel = f + 1 := by
          rw [List.take_append_of_le_length (by omega)] at hfuel
          exact ⟨fuel - 1, by omega⟩
        -- A character at the start would have to be `c`, and `c` is not all there.
        have hnone : decodeChar ((String.utf8EncodeChar c).take n) = none := by
          by_contra hsome
          obtain ⟨d, hd⟩ := Option.ne_none_iff_exists'.mp hsome
          obtain ⟨x, hx⟩ := decodeChar_some hd
          have hcd : c = d :=
              utf8EncodeChar_append_inj (x := []) (y := x ++ (String.utf8EncodeChar c).drop n) (by
            rw [List.append_nil, ← List.append_assoc, ← hx, List.take_append_drop])
          have hlength := congrArg List.length hx
          rw [← hcd, List.length_append, hraw] at hlength
          omega
        rw [decodeRunes, if_neg (by intro hnil; rw [hnil] at hraw; simp at hraw; omega), hnone]
        dsimp only
        rw [fullRune_short c hn hshort]
        rfl

theorem takeBytes_prefix (cs : List Char) (room : Int) :
    ∃ rest, cs = takeBytes cs room ++ rest := by
  induction cs generalizing room with
  | nil => exact ⟨[], rfl⟩
  | cons c cs ih =>
    unfold takeBytes
    split
    case isTrue =>
      obtain ⟨rest, hrest⟩ := ih (room - c.utf8Size)
      exact ⟨rest, congrArg (c :: ·) hrest⟩
    case isFalse => exact ⟨c :: cs, rfl⟩

theorem utf8PrefixBytes_text (raw : List UInt8) (maximum : Nat) :
    (∃ t, utf8PrefixBytes raw maximum = encode t) ∧
      (utf8PrefixBytes raw maximum).length ≤ maximum := by
  unfold utf8PrefixBytes
  cases hfind : (raw.take maximum).inits.reverse.find? fun p => p.toByteArray.validateUTF8 with
  | none => exact ⟨⟨[], rfl⟩, Nat.zero_le _⟩
  | some p =>
    obtain ⟨t, ht⟩ := ByteArray.validateUTF8_eq_true_iff.mp
      (List.find?_some (p := fun p : List UInt8 => p.toByteArray.validateUTF8) hfind)
    have hmem : p ∈ (raw.take maximum).inits :=
      List.mem_reverse.mp (List.mem_of_find?_eq_some hfind)
    have hlen := ((List.mem_inits _ _).mp hmem).length_le
    rw [List.length_take] at hlen
    refine ⟨⟨t, ?_⟩, by simpa using hlen.trans (Nat.min_le_left _ _)⟩
    have hdata := congrArg (fun b => b.data.toList) ht
    simpa [List.utf8Encode, encode] using hdata

theorem bounded_text {new : List UInt8} (room : Nat) (h : ∃ t, new = encode t) :
    (∃ t, bounded room new = encode t) ∧ (bounded room new).length ≤ room := by
  unfold bounded
  split
  case isTrue hfits => exact ⟨h, hfits⟩
  case isFalse =>
    obtain ⟨⟨t, ht⟩, hlen⟩ := utf8PrefixBytes_text new (room - logLimit.length)
    dsimp only
    split
    case isTrue hroom =>
      refine ⟨⟨t ++ "\n[log output truncated at the execution log limit]\n".toList, ?_⟩, ?_⟩
      · rw [ht, encode_append]
        rfl
      · rw [List.length_append]
        omega
    case isFalse => exact ⟨⟨t, ht⟩, by omega⟩

section
variable {δ : Type} {digest : List UInt8 → δ} {maximum : Nat}

/-- The digests of a cursor are of texts. -/
structure OfTexts (digest : List UInt8 → δ) (m : SpoolCursor δ) : Prop where
  snapshot : ∀ d, m.snapshotSha = some d → ∃ p, d = digest (encode p)
  entry : ∀ d, m.snapshotEntrySha = some d → ∃ l, d = digest (encode l)

/-- **What is new in a snapshot is text**: without collisions, a part of the snapshot with the
digest of a text is that text, and what follows it starts at a character. -/
theorem addition_text [DecidableEq δ] (hinj : Function.Injective digest) {m : SpoolCursor δ}
    (hm : OfTexts digest m) (snapshot : List Char) :
    ∃ t, (addition digest m (encode snapshot)).1 = encode t := by
  have hgap : ∃ t, logGap ++ encode snapshot = encode t :=
    ⟨"\n[log capture gap: earlier rotated output unavailable]\n".toList ++ snapshot,
      (encode_append _ _).symm⟩
  unfold addition
  split
  case isTrue => exact ⟨[], rfl⟩
  case isFalse =>
    split
    case h_1 => exact ⟨snapshot, rfl⟩
    case h_2 previous hprevious =>
      split
      case isTrue hprefix =>
        obtain ⟨p, rfl⟩ := hm.snapshot previous hprevious
        obtain ⟨c, -, hc⟩ := encode_suffix ((congrArg (· ++ (encode snapshot).drop m.snapshotLength)
          (hinj hprefix.2)).symm.trans (List.take_append_drop _ _))
        exact ⟨c, hc⟩
      case isFalse =>
        split
        case h_1 => exact hgap
        case h_2 index _ =>
          split
          case isFalse => exact hgap
          case isTrue hentry =>
            obtain ⟨hpos, hlen, hsha⟩ := hentry
            obtain ⟨l, hl⟩ := hm.entry _ hsha.symm
            have hslice := hinj hl
            have hsplit : encode snapshot = (encode snapshot).take index ++
                (encode l ++ (encode snapshot).drop (index + m.snapshotEntryLength)) := by
              rw [← hslice, ← List.drop_drop, List.take_append_drop, List.take_append_drop]
            -- The entry has a first byte, which starts a character.
            cases l with
            | nil =>
              have hzero := congrArg List.length hslice
              rw [List.length_take, List.length_drop, show (encode []).length = 0 from rfl] at hzero
              omega
            | cons c l =>
              obtain ⟨b, rest, hshape, hlead, -⟩ := utf8EncodeChar_shape c
              obtain ⟨a, t, -, -, ht⟩ := encode_boundary (by
                rw [hsplit, encode_cons, hshape, List.cons_append, List.cons_append]) hlead
              obtain ⟨t', -, ht'⟩ := encode_suffix (p := c :: l) (t := t)
                (y := (encode snapshot).drop (index + m.snapshotEntryLength)) (by
                  rw [ht, encode_cons, hshape, List.cons_append, List.cons_append])
              exact ⟨t', ht'⟩

/-! ### What a call keeps -/

/-- A directory whose committed content is text. -/
structure SpoolOk (digest : List UInt8 → δ) (maximum : Nat) (s : Spool δ) : Prop where
  text : ∃ t, s.content = encode t
  within : s.cursor.committed ≤ s.file.length
  bound : s.file.length ≤ maximum
  digests : OfTexts digest s.cursor

/-- A state that a call may leave: it is in order, and nothing committed is lost. -/
def Extends (digest : List UInt8 → δ) (maximum : Nat) (s s' : Spool δ) : Prop :=
  SpoolOk digest maximum s' ∧ s.content <+: s'.content

variable {s : Spool δ} {offset maxBytes : Int}

theorem SpoolOk.content_length (hs : SpoolOk digest maximum s) :
    s.content.length = s.cursor.committed := by
  rw [Spool.content, List.length_take]
  exact Nat.min_eq_left hs.within

/-- A state with the old cursor. -/
theorem SpoolOk.written (hs : SpoolOk digest maximum s) {p : List UInt8} (pending : Bool)
    (hlen : s.cursor.committed + p.length ≤ maximum) :
    Extends digest maximum s ⟨some (s.content ++ p), s.cursor, pending⟩ := by
  have hcontent : (⟨some (s.content ++ p), s.cursor, pending⟩ : Spool δ).content = s.content := by
    show (s.content ++ p).take s.cursor.committed = s.content
    rw [← hs.content_length, List.take_left]
  refine ⟨⟨?_, ?_, ?_, hs.digests⟩, by rw [hcontent]⟩
  · rw [hcontent]
    exact hs.text
  · show s.cursor.committed ≤ (s.content ++ p).length
    rw [List.length_append, hs.content_length]
    omega
  · show (s.content ++ p).length ≤ maximum
    rw [List.length_append, hs.content_length]
    exact hlen

theorem update_extends [DecidableEq δ] (hinj : Function.Injective digest)
    (hs : SpoolOk digest maximum s) (redactedSnapshot : List UInt8) (complete : Bool) :
    ∀ s' ∈ (s.update digest maximum redactedSnapshot complete).1, Extends digest maximum s s' := by
  have hsame : Extends digest maximum s { s with stdout := some s.file } :=
    ⟨⟨hs.text, hs.within, hs.bound, hs.digests⟩, List.prefix_rfl⟩
  unfold Spool.update
  dsimp only
  split
  case isTrue => exact fun s' hs' => absurd hs' List.not_mem_nil
  case isFalse =>
    split
    case isTrue => exact fun s' hs' => absurd hs' List.not_mem_nil
    case isFalse =>
      split
      case isTrue => exact fun s' hs' => List.mem_singleton.mp hs' ▸ hsame
      case isFalse =>
        generalize toValidUtf8 redactedSnapshot.length false redactedSnapshot = snapshot
        obtain ⟨⟨t, ht⟩, hlen⟩ :=
          bounded_text (maximum - s.cursor.committed) (addition_text hinj hs.digests snapshot)
        have hroom : s.cursor.committed ≤ maximum := hs.within.trans hs.bound
        obtain ⟨t₀, ht₀⟩ := hs.text
        intro s' hs'
        rcases List.mem_append.mp hs' with hs' | hs'
        · rcases List.mem_cons.mp hs' with rfl | hs'
          · exact hsame
          · obtain ⟨p, hp, rfl⟩ := List.mem_map.mp hs'
            have hle := ((List.mem_inits _ _).mp hp).length_le
            exact hs.written s.pending (by omega)
        · simp only [spoolSave, List.mem_cons, List.not_mem_nil, or_false] at hs'
          rcases hs' with rfl | rfl | rfl
          · exact hs.written false (by omega)
          · exact hs.written true (by omega)
          · -- The new cursor commits all that was appended.
            generalize bounded (maximum - s.cursor.committed)
              (addition digest s.cursor (encode snapshot)).1 = new
              at ht hlen
            have hcontent (m : SpoolCursor δ) (hm : m.committed = s.cursor.committed + new.length) :
                (⟨some (s.content ++ new), m, false⟩ : Spool δ).content = s.content ++ new := by
              show (s.content ++ new).take m.committed = _
              rw [List.take_of_length_le]
              rw [hm, List.length_append, hs.content_length]
            constructor
            · constructor
              case text => exact ⟨t₀ ++ t, by rw [hcontent _ rfl, encode_append, ht₀, ht]⟩
              case within =>
                show s.cursor.committed + new.length ≤ (s.content ++ new).length
                rw [List.length_append, hs.content_length]
              case bound =>
                show (s.content ++ new).length ≤ maximum
                rw [List.length_append, hs.content_length]
                omega
              case digests =>
                exact ⟨fun d hd => ⟨snapshot, (Option.some.inj hd).symm⟩,
                  fun d hd => ⟨lastEntry snapshot, (Option.some.inj hd).symm⟩⟩
            · rw [hcontent _ rfl]
              exact List.prefix_append _ _

theorem markComplete_extends (hs : SpoolOk digest maximum s) :
    ∀ s' ∈ s.markComplete, Extends digest maximum s s' := by
  intro s' hs'
  simp only [Spool.markComplete, spoolSave, List.mem_cons, List.not_mem_nil, or_false] at hs'
  rcases hs' with rfl | rfl | rfl
  · exact ⟨⟨hs.text, hs.within, hs.bound, hs.digests⟩, List.prefix_rfl⟩
  · exact ⟨⟨hs.text, hs.within, hs.bound, hs.digests⟩, List.prefix_rfl⟩
  · exact ⟨⟨hs.text, hs.within, hs.bound, ⟨hs.digests.snapshot, hs.digests.entry⟩⟩, List.prefix_rfl⟩

theorem leave_mem (s : Spool δ) (states : List (Spool δ)) (died : Option Nat) :
    leave s states died = s ∨ leave s states died ∈ states := by
  have hlast (xs : List (Spool δ)) : xs.getLast?.getD s = s ∨ xs.getLast?.getD s ∈ xs := by
    cases h : xs.getLast? with
    | none => exact .inl rfl
    | some x => exact .inr (List.mem_of_getLast? h)
  cases died with
  | none => exact hlast states
  | some k => exact (hlast (states.take k)).imp_right List.mem_of_mem_take

theorem spoolStep_extends [DecidableEq δ] (hinj : Function.Injective digest)
    (hs : SpoolOk digest maximum s) (a : SpoolAction) :
    Extends digest maximum s (spoolStep digest maximum s a) := by
  have hleave {states : List (Spool δ)} (h : ∀ s' ∈ states, Extends digest maximum s s')
      (died : Option Nat) :
      Extends digest maximum s (leave s states died) := by
    rcases leave_mem s states died with hsame | hmem
    · rw [hsame]
      exact ⟨hs, List.prefix_rfl⟩
    · exact h _ hmem
  cases a with
  | update snapshot complete died => exact hleave (update_extends hinj hs snapshot complete) died
  | markComplete died => exact hleave (markComplete_extends hs) died

/-! ### Reading -/

/-- An offset between two characters of the committed content. -/
def Boundary (s : Spool δ) (offset : Int) : Prop :=
  ∃ a b, s.content = encode a ++ encode b ∧ ((encode a).length : Int) = offset

theorem Boundary.extends {s' : Spool δ} (h : Boundary s offset) (he : Extends digest maximum s s') :
    Boundary s' offset := by
  obtain ⟨a, b, hab, hlen⟩ := h
  obtain ⟨x, hx⟩ := he.2
  obtain ⟨t, ht⟩ := he.1.text
  obtain ⟨c, rfl, -⟩ :=
    encode_suffix (p := a ++ b) (t := t) (y := x) (by rw [encode_append, ← hab, hx, ht])
  exact ⟨a, b ++ c, by rw [ht, ← encode_append, List.append_assoc], hlen⟩

variable {n : Naming} {identity : LogIdentity}

/-- `Read` at a boundary returns characters that follow it, at least one if there are any. -/
theorem SpoolOk.read_eq (hs : SpoolOk digest maximum s) (hid : identity.validate n = .ok ())
    {a b : List Char} (hab : s.content = encode a ++ encode b)
    (hmax : 4 ≤ maxBytes ∧ maxBytes ≤ maxLogChunkBytes) :
    ∃ cs rest r, b = cs ++ rest ∧ (b ≠ [] → cs ≠ []) ∧
      s.read maximum n identity (encode a).length maxBytes = .ok r ∧ r.content = String.ofList cs ∧
      r.nextOffset = (encode (a ++ cs)).length := by
  have hlength : s.cursor.committed = (encode a).length + (encode b).length := by
    rw [← hs.content_length, hab, List.length_append]
  have hsize : (min maxBytes (s.cursor.committed - (encode a).length)).toNat =
      min maxBytes.toNat (encode b).length := by omega
  -- What is read of the file is committed.
  have hraw : (s.file.drop (encode a).length).take (min maxBytes.toNat (encode b).length) =
      (encode b).take maxBytes.toNat := by
    have hfile : encode b = (s.file.drop (encode a).length).take (encode b).length := by
      have hdrop := congrArg (List.drop (encode a).length) hab
      rw [List.drop_left, Spool.content, List.drop_take,
        show s.cursor.committed - (encode a).length = (encode b).length by omega] at hdrop
      exact hdrop.symm
    conv_rhs => rw [hfile]
    rw [List.take_take]
  obtain ⟨rest, hrest⟩ := takeBytes_prefix b maxBytes.toNat
  have hread : s.read maximum n identity (encode a).length maxBytes =
      .ok ⟨identity, n.key identity, (encode a).length,
      (encode a).length + (encode (takeBytes b maxBytes.toNat)).length,
        String.ofList (takeBytes b maxBytes.toNat),
        s.cursor.complete &&
          decide (((encode a).length : Int) + (encode (takeBytes b maxBytes.toNat)).length =
          s.cursor.committed), s.cursor.truncated⟩ := by
    have hbound := hs.bound
    have hwithin := hs.within
    have hfile : s.stdout = none → s.cursor.committed = 0 := by
      intro hnone
      have hempty : s.file = [] := by rw [Spool.file, hnone]; rfl
      rw [hempty] at hwithin
      exact Nat.le_zero.mp hwithin
    unfold Spool.read
    rw [hid]
    simp only [Int.toNat_natCast, hsize, hraw, List.length_take]
    rw [bind_ok]
    refine ⟨(), rfl, ?_⟩
    rw [if_neg (by omega), if_neg (by omega), if_neg (by
      rintro (⟨hnone, hne⟩ | hover | hshort)
      · exact hne (hfile hnone)
      · omega
      · omega), decodeRunes_take b maxBytes.toNat _ (by rw [List.length_take])]
    rfl
  refine ⟨takeBytes b maxBytes.toNat, rest, _, hrest, fun hb => ?_, hread, rfl, ?_⟩
  · cases b with
    | nil => exact absurd rfl hb
    | cons c b =>
      have hfour := Char.utf8Size_le_four c
      rw [takeBytes, if_pos (by omega)]
      exact List.cons_ne_nil _ _
  · rw [encode_append, List.length_append]
    push_cast
    rfl

theorem SpoolOk.read_ok (hs : SpoolOk digest maximum s) (hid : identity.validate n = .ok ())
    (hb : Boundary s offset) (hmax : 4 ≤ maxBytes ∧ maxBytes ≤ maxLogChunkBytes) :
    ∃ r, s.read maximum n identity offset maxBytes = .ok r ∧ Boundary s r.nextOffset := by
  obtain ⟨a, b, hab, rfl⟩ := hb
  obtain ⟨cs, rest, r, rfl, -, hr, -, hnext⟩ := hs.read_eq hid hab hmax
  refine ⟨r, hr, a ++ cs, rest, ?_, hnext.symm⟩
  rw [hab, encode_append, encode_append, List.append_assoc]

/-- Bytes that start with a continuation byte are no text, and no start of one. -/
theorem decodeRunes_continuation {b : UInt8} {raw : List UInt8} (hb : Continuation b) (fuel : Nat) :
    decodeRunes (fuel + 1) (b :: raw) = none := by
  have hnone : decodeChar (b :: raw) = none := by
    by_contra hsome
    obtain ⟨c, hc⟩ := Option.ne_none_iff_exists'.mp hsome
    obtain ⟨x, hx⟩ := decodeChar_some hc
    obtain ⟨b', rest, hshape, hlead, -⟩ := utf8EncodeChar_shape c
    rw [hshape, List.cons_append] at hx
    exact hlead ((List.cons.inj hx).1 ▸ hb)
  have hleads : leads b.toNat = (1, 0x80, 0xBF) := if_pos (Nat.lt_of_lt_of_le hb.2 (by decide))
  have hfull : fullRune (b :: raw) = true := by simp [fullRune, hleads]
  rw [decodeRunes, if_neg (List.cons_ne_nil _ _), hnone]
  dsimp only
  rw [hfull]
  rfl

/-- What any `Read` returns, at any offset, is a boundary. -/
theorem SpoolOk.read_boundary (hs : SpoolOk digest maximum s) {r : LogReceipt}
    (h : s.read maximum n identity offset maxBytes = .ok r) : Boundary s r.nextOffset := by
  have hread := h
  simp only [Spool.read, block_ok] at h
  obtain ⟨hid, hargs, hoffset, hfile, h⟩ := h
  simp only [not_or, not_lt] at hargs hoffset
  obtain ⟨hlow, hmin, hmax⟩ := hargs
  obtain ⟨t, ht⟩ := hs.text
  have hlen := hs.content_length
  suffices hb : Boundary s offset by
    obtain ⟨r', hr', hnext⟩ := hs.read_ok hid hb ⟨hmin, hmax⟩
    obtain rfl := Except.ok.inj (hr'.symm.trans hread)
    exact hnext
  rcases Nat.lt_or_ge offset.toNat s.content.length with hlt | hge
  · -- The byte at the offset starts a character, since `Read` has not refused it.
    have hsplit : encode t = s.content.take offset.toNat ++ s.content[offset.toNat] ::
        s.content.drop (offset.toNat + 1) := by
      rw [← ht, List.getElem_cons_drop, List.take_append_drop]
    by_cases hcont : Continuation s.content[offset.toNat]
    · exfalso
      have hraw : ∃ k x,
          (s.file.drop offset.toNat).take (min maxBytes (s.cursor.committed - offset)).toNat =
          s.content[offset.toNat] :: x ∧
          ((s.file.drop offset.toNat).take
            (min maxBytes (s.cursor.committed - offset)).toNat).length = k + 1 := by
        have hfile : offset.toNat < s.file.length := by have := hs.within; omega
        have hget : s.content[offset.toNat] = s.file[offset.toNat] := List.getElem_take
        obtain ⟨k, hk⟩ : ∃ k, (min maxBytes (s.cursor.committed - offset)).toNat = k + 1 :=
          ⟨(min maxBytes (s.cursor.committed - offset)).toNat - 1, by omega⟩
        rw [hk, List.drop_eq_getElem_cons hfile, List.take_succ_cons, hget]
        exact ⟨_, _, rfl, rfl⟩
      obtain ⟨k, x, hx, hk⟩ := hraw
      rw [hk, hx, decodeRunes_continuation hcont] at h
      cases h
    · obtain ⟨a, c, -, ha, hc⟩ := encode_boundary hsplit hcont
      refine ⟨a, c, by rw [ht, hsplit, ha, hc], ?_⟩
      rw [ha, List.length_take]
      omega
  · refine ⟨t, [], by rw [ht]; exact (List.append_nil _).symm, ?_⟩
    rw [← ht]
    omega

/-! ### Runs -/

/-- A reader of the log: where it is, what it has read, and whether it was refused. -/
structure Reader (δ : Type) where
  spool : Spool δ := {}
  offset : Int := 0
  seen : List Char := []
  refused : Bool := false

inductive ReaderAction where
  | call (a : SpoolAction)
  | read (maxBytes : Int)

/-- Reads go on at the `next_offset` of the read before. Calls come in between. -/
def readerStep [DecidableEq δ] (digest : List UInt8 → δ) (maximum : Nat) (n : Naming)
    (identity : LogIdentity) (w : Reader δ) : ReaderAction → Reader δ
  | .call a => { w with spool := spoolStep digest maximum w.spool a }
  | .read maxBytes =>
    match w.spool.read maximum n identity w.offset maxBytes with
    | .ok r => { w with offset := r.nextOffset, seen := w.seen ++ r.content.toList }
    | .error _ => { w with refused := true }

/-- The reader has read the start of the committed content. -/
structure ReaderOk (digest : List UInt8 → δ) (maximum : Nat) (w : Reader δ) : Prop where
  spool : SpoolOk digest maximum w.spool
  accepted : w.refused = false
  offset : w.offset = (encode w.seen).length
  seen : ∃ rest, w.spool.content = encode w.seen ++ encode rest

/-- A size that `Read` takes. -/
def ReaderAction.sized : ReaderAction → Prop
  | .call _ => True
  | .read maxBytes => 4 ≤ maxBytes ∧ maxBytes ≤ maxLogChunkBytes

/-- A read takes a reader on, until it has read all that is committed. -/
theorem ReaderOk.read [DecidableEq δ] {w : Reader δ} (hw : ReaderOk digest maximum w)
    (hid : identity.validate n = .ok ()) (hmax : 4 ≤ maxBytes ∧ maxBytes ≤ maxLogChunkBytes) :
    ReaderOk digest maximum (readerStep digest maximum n identity w (.read maxBytes)) ∧
      (readerStep digest maximum n identity w (.read maxBytes)).spool = w.spool ∧
      ((encode w.seen).length <
        (encode (readerStep digest maximum n identity w (.read maxBytes)).seen).length ∨
        w.spool.content.length ≤
          (encode (readerStep digest maximum n identity w (.read maxBytes)).seen).length) := by
  obtain ⟨rest, hseen⟩ := hw.seen
  obtain ⟨cs, rest', r, rfl, hsome, hr, hcontent, hnext⟩ := hw.spool.read_eq hid hseen hmax
  have hstep : readerStep digest maximum n identity w (.read maxBytes) =
      { w with offset := (encode (w.seen ++ cs)).length, seen := w.seen ++ cs } := by
    unfold readerStep
    dsimp only
    rw [hw.offset, hr]
    dsimp only
    rw [hnext, hcontent, String.toList_ofList]
  rw [hstep]
  refine ⟨⟨hw.spool, hw.accepted, rfl, rest', ?_⟩, rfl, ?_⟩
  · show w.spool.content = encode (w.seen ++ cs) ++ encode rest'
    rw [hseen, encode_append, encode_append, List.append_assoc]
  · show (encode w.seen).length < (encode (w.seen ++ cs)).length ∨
      w.spool.content.length ≤ (encode (w.seen ++ cs)).length
    rw [encode_append, List.length_append]
    cases cs with
    | nil =>
      have hnil : [] ++ rest' = [] := by
        by_contra hne
        exact hsome hne rfl
      rw [hseen, hnil, List.length_append]
      exact .inr (by omega)
    | cons c cs =>
      have hpos := List.length_pos_iff.mpr (String.utf8EncodeChar_ne_nil (c := c))
      rw [encode_cons, List.length_append]
      exact .inl (by omega)

theorem ReaderOk.step [DecidableEq δ] (hinj : Function.Injective digest)
    (hid : identity.validate n = .ok ()) (w : Reader δ) (a : ReaderAction)
    (hw : ReaderOk digest maximum w) (ha : a.sized) :
    ReaderOk digest maximum (readerStep digest maximum n identity w a) ∧
      Extends digest maximum w.spool (readerStep digest maximum n identity w a).spool := by
  cases a with
  | call a =>
    have hext := spoolStep_extends hinj hw.spool a
    obtain ⟨rest, hseen⟩ := hw.seen
    obtain ⟨x, hx⟩ := hext.2
    obtain ⟨t, ht⟩ := hext.1.text
    obtain ⟨c, rfl, hc⟩ := encode_suffix (p := w.seen) (t := t) (y := encode rest ++ x) (by
      rw [← List.append_assoc, ← hseen, hx, ht])
    exact ⟨⟨hext.1, hw.accepted, hw.offset, c, by rw [← encode_append]; exact ht⟩, hext⟩
  | read maxBytes =>
    obtain ⟨hok, hsame, -⟩ := hw.read hid ha
    rw [hsame]
    exact ⟨hok, hw.spool, List.prefix_rfl⟩

/-- Enough reads return all that is committed. -/
theorem ReaderOk.read_all [DecidableEq δ] (hid : identity.validate n = .ok ()) (sizes : List Int)
    (hsizes : ∀ m ∈ sizes, 4 ≤ m ∧ m ≤ maxLogChunkBytes) {w : Reader δ}
    (hw : ReaderOk digest maximum w)
    (henough : w.spool.content.length ≤ (encode w.seen).length + sizes.length) :
    encode ((sizes.map ReaderAction.read).foldl (readerStep digest maximum n identity) w).seen =
      w.spool.content := by
  induction sizes generalizing w with
  | nil =>
    obtain ⟨rest, hseen⟩ := hw.seen
    rw [hseen, List.length_append, List.length_nil] at henough
    have hnil : encode rest = [] := List.length_eq_zero_iff.mp (by omega)
    rw [hseen, hnil]
    exact (List.append_nil _).symm
  | cons m sizes ih =>
    obtain ⟨hok, hsame, hmore⟩ := hw.read hid (hsizes m List.mem_cons_self)
    rw [List.map_cons, List.foldl_cons, ← hsame]
    refine ih (fun m hm => hsizes m (List.mem_cons_of_mem _ hm)) hok ?_
    rw [hsame]
    rw [List.length_cons] at henough
    omega

/-- **The committed log only grows, and is read as it is.** After any calls, some of which died, and
any chain of reads: the committed content is text within the bound and is a start of what it is
later; the reads so far are its start, and enough further reads return it all; and every offset
that a read has returned can be read from later. -/
theorem spool_append_only [DecidableEq δ] (digest : List UInt8 → δ)
    (hinj : Function.Injective digest) (maximum : Nat) (n : Naming) (identity : LogIdentity)
    (hid : identity.validate n = .ok ()) (run more : List ReaderAction)
    (hsized : ∀ a ∈ run ++ more, a.sized) (w w' : Reader δ)
    (hw : w = run.foldl (readerStep digest maximum n identity) {})
    (hw' : w' = more.foldl (readerStep digest maximum n identity) w) :
    (∃ text, w.spool.content = bytes text) ∧ w.spool.content.length ≤ maximum ∧
      w.spool.content <+: w'.spool.content ∧ w.refused = false ∧
      bytes (String.ofList w.seen) = w.spool.content.take w.offset.toNat ∧
      (∀ sizes : List Int, (∀ m ∈ sizes, 4 ≤ m ∧ m ≤ maxLogChunkBytes) →
        w.spool.content.length ≤ sizes.length →
        bytes (String.ofList
          ((sizes.map ReaderAction.read).foldl (readerStep digest maximum n identity) w).seen) =
          w.spool.content) ∧
      ∀ offset maxBytes r, w.spool.read maximum n identity offset maxBytes = .ok r →
        ∀ m, 4 ≤ m ∧ m ≤ maxLogChunkBytes →
          ∃ r', w'.spool.read maximum n identity r.nextOffset m = .ok r' := by
  have hbytes (cs : List Char) : bytes (String.ofList cs) = encode cs := by
    rw [bytes, String.toList_ofList]
    rfl
  have hstart : ReaderOk digest maximum {} :=
    ⟨⟨⟨[], rfl⟩, Nat.le_refl 0, Nat.zero_le _, ⟨nofun, nofun⟩⟩, rfl, rfl, [], rfl⟩
  have hok : ReaderOk digest maximum w :=
    hw ▸ Run.keeps (fun s a hs ha => (hs.step hinj hid s a ha).1) hstart
    (Run.every_of_mem (fun a ha => hsized a (List.mem_append_left _ ha)) _)
  -- From `w` on, every state extends what `w` has committed.
  have hlater : ReaderOk digest maximum w' ∧ Extends digest maximum w.spool w'.spool :=
    hw' ▸ Run.keeps (P := fun v => ReaderOk digest maximum v ∧
      Extends digest maximum w.spool v.spool)
      (fun v a hv ha =>
        have hstep := hv.1.step hinj hid v a ha
        ⟨hstep.1, hstep.2.1, hv.2.2.trans hstep.2.2⟩)
      ⟨hok, hok.spool, List.prefix_rfl⟩
        (Run.every_of_mem (fun a ha => hsized a (List.mem_append_right _ ha)) _)
  obtain ⟨t, ht⟩ := hok.spool.text
  obtain ⟨rest, hseen⟩ := hok.seen
  refine ⟨⟨String.ofList t, by rw [ht, hbytes]⟩, ?_, hlater.2.2, hok.accepted, ?_,
    fun sizes hsizes henough => ?_,
    fun offset maxBytes r hr m hm => ?_⟩
  · rw [hok.spool.content_length]
    exact hok.spool.within.trans hok.spool.bound
  · rw [hbytes, hok.offset, Int.toNat_natCast, hseen, List.take_left]
  · rw [hbytes]
    exact hok.read_all hid sizes hsizes (by omega)
  · obtain ⟨r', hr', -⟩ :=
      hlater.1.spool.read_ok hid ((hok.spool.read_boundary hr).extends hlater.2) hm
    exact ⟨r', hr'⟩

end

/-- `Update` dies after it has appended three bytes, the next one gets a longer log, and is then
read. -/
def tornUpdate : List ReaderAction :=
  [.call (.update (bytes "one\n") false (some 4)), .call (.update (bytes "one\ntwo\n") false none),
    .read 4, .call (.markComplete (some 2))]

theorem spool_append_only_tornUpdate :
    (tornUpdate.foldl (readerStep id 256 plainNaming ⟨1, 1, "c", 1⟩) {}).spool.content =
      bytes "one\ntwo\n" ∧
    (tornUpdate.foldl (readerStep id 256 plainNaming ⟨1, 1, "c", 1⟩) {}).refused = false :=
  ⟨by decide +kernel,
    (spool_append_only id Function.injective_id 256 plainNaming ⟨1, 1, "c", 1⟩ rfl tornUpdate []
    (by simp [tornUpdate, ReaderAction.sized, maxLogChunkBytes]) _ _ rfl rfl).2.2.2.1⟩

end Hf2l.Jobs.Artifacts
