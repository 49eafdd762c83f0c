import Hf2l.Exchange.Service.Log

/-!
# `Hf2l.Exchange.Service.Events`: the event feed

`events` answers a member with the events after a cursor that it may see, and with the cursor to
ask with next. What a member sees of an event depends on the record as it is now. The last event
of a record outlives its metadata, and is then shown under the policy of its kind.

The Go service asks the same query (`Events` in `events.go`). A page is a page of the journal of
the space (`events_ok`), and the events that `prune` chooses are a selection of it
(`prunableEvents_eq`).
-/

set_option autoImplicit false

namespace Hf2l.Exchange.Service

open Lib Lib.Checked

/-- An event as it is delivered. -/
structure EventView where
  id : Nat
  type : String
  recordId : Option Id
  payload : Fields
  createdAt : Time

structure EventPage where
  items : List EventView
  nextCursor : Nat

/-- Whether the member is shown the end of a record whose metadata may be gone. -/
def tombstoneAccess (db : Db) (member : Member) (e : Event) : Bool :=
  if .publisher ∈ member.roles then e.recordId.isSome
  else if member.roles.any (· ∈ [Role.reader, .contributor]) then
    ((Fields.get e.payload "kind").bind Json.str?).any fun kind =>
      (db.policy kind).any (·.visibility = Visibility.shared)
  else false

/-- The event is shown with its record, as the end of a published record, or to administrators. -/
def eventVisible (db : Db) (member : Member) (p : Principal) (e : Event) : Bool :=
  (e.recordId.any fun id => (db.ledger.record id).any (visible member p)) ||
  (decide (e.type ∈ terminalEvents) && (Fields.get e.payload "published").any
    (· matches .bool true) &&
    tombstoneAccess db member e) ||
  (decide (.admin ∈ member.roles) && e.recordId.isNone)

/-- `row.type.split('.', 1)[1]`. -/
def afterDot (text : String) : String := String.ofList ((text.toList.dropWhile (· ≠ '.')).drop 1)

/-- Of the end of a record only the state is told. -/
def eventDict (e : Event) : EventView where
  id := e.id
  type := e.type
  recordId := e.recordId
  payload := if e.type ∈ terminalEvents then [("state", .str (afterDot e.type))] else e.payload
  createdAt := e.createdAt

/-- `max(Event.id) or after`. -/
def lastEventId (db : Db) (after : Nat) : Nat :=
  match (db.events.map (·.id)).max? with
  | some n => if n = 0 then after else n
  | none => after

/-- The error of a cursor that retention has overtaken. -/
def cursorExpired (floor : Nat) : Error :=
  ⟨410, "event_cursor_expired",
    "Reconcile current resources and resume at the supplied floor: " ++ Nat.repr floor⟩

/-- `events`. -/
def events (env : Env) (p : Principal) (after limit : Int) (clock : Clock) (db : Db) :
    Except Error EventPage := do
  refuse (¬ (1 ≤ limit ∧ limit ≤ 1000) ∨ after < 0) (err 422 "invalid_cursor")
  let member ← transaction env db p .read (clock 0)
  let floor := db.ledger.space.eventFloor
  refuse (after < floor) (cursorExpired floor)
  let rows := ((db.events.filter fun e => after.toNat < e.id &&
    eventVisible db member p e).insertionSort
    fun a b => a.id ≤ b.id).take (limit.toNat + 1)
  let more := limit.toNat < rows.length
  let rows := rows.take limit.toNat
  -- The cursor passes what the member does not see.
  let cursor := if more then
    (rows.getLast?.map (·.id)).getD after.toNat else lastEventId db after.toNat
  return ⟨rows.map eventDict, cursor⟩

/-- The query of `prune` for the events that have outlived their retention, in its first
transaction. `batch` is the part of the limit that falls to this space. -/
def prunableEvents (env : Env) (batch : Nat) (now : Time) (db : Db) : List Nat :=
  (((db.events.filter fun e => e.createdAt < now - env.eventRetentionSeconds).insertionSort
    fun a b => a.id ≤ b.id).take batch).map (·.id)

/-! ### The feed as a journal -/

variable {env : Env} {p : Principal} {clock : Clock} {db : Db}

theorem prunableEvents_eq (env : Env) (batch : Nat) (now : Time) (db : Db) :
    prunableEvents env batch now db = Journal.select Event.id Event.createdAt
    (now - env.eventRetentionSeconds) batch db.journal := rfl

/-- A page of the feed is a page of the journal. -/
theorem events_ok {after : Nat} {limit : Int} {page : EventPage}
    (h : events env p after limit clock db = .ok page) :
    ∃ member, transaction env db p .read (clock 0) = .ok member ∧ db.journal.floor ≤ after ∧
      page = ⟨(Journal.page Event.id (eventVisible db member p) after limit.toNat
        db.journal).rows.map eventDict,
        (Journal.page Event.id (eventVisible db member p) after limit.toNat
        db.journal).cursor⟩ := by
  simp only [events, block_ok, refuse_ok, not_lt, Int.toNat_natCast] at h
  obtain ⟨-, member, hm, hfloor, rfl⟩ := h
  exact ⟨member, hm, by exact_mod_cast hfloor, rfl⟩

/-- Below the floor a valid request of a member is told that its cursor has expired. -/
theorem events_expired {after : Nat} {limit : Int} {member : Member} (hl : 1 ≤ limit ∧ limit ≤ 1000)
    (hm : transaction env db p .read (clock 0) = .ok member) (hf : after < db.journal.floor) :
    events env p after limit clock db = .error (cursorExpired db.journal.floor) := by
  have hnot : ¬ (¬ (1 ≤ limit ∧ limit ≤ 1000) ∨ (after : Int) < 0) := by omega
  have hfloor : (after : Int) < db.ledger.space.eventFloor := by exact_mod_cast hf
  simp only [events, refuse, if_neg hnot, hm, if_pos hfloor]
  rfl

end Hf2l.Exchange.Service
