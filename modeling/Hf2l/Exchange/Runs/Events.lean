import Hf2l.Exchange.Runs.Replays
import Hf2l.Exchange.Service.Events

/-!
# `Hf2l.Exchange.Runs.Events`: a member who polls, while events are written and pruned

The system has the database, the choices of `prune` passes whose second transaction is still to
come, and a member who polls `events` with the cursor of the last page. A step is a transaction of
the service, the first or the second transaction of a `prune` pass, or a poll. Any number of passes
may be under way, and one that crashed never removes what it chose.

The clock of the database is assumed to be monotone. Then what a pass has chosen is everything up
to some event, and stays so whatever comes between its two transactions. So nothing below the floor
of the space is left, and the pages of a member who is not below it are complete.
-/

set_option autoImplicit false

namespace Hf2l.Exchange

open Lib Lib.Checked
open Service

/-- The space, the events that were chosen for removal and the member who polls. -/
structure Feed where
  db : Db
  chosen : List (List Nat) := []
  reader : Journal.Reader := ⟨0, []⟩
  /-- The events that were pruned. No step reads them. -/
  pruned : List Nat := []

namespace Feed

variable {τ : Type}

/-- What happens to the log and its reader. -/
inductive Act (τ : Type) where
  | transact (tx : τ)
  /-- The first transaction of `prune`. -/
  | choose (operations : Operation → Bool) (attempts : TransferAttempt → Bool) (batch : Nat)
  /-- The second transaction, for one of the choices. -/
  | remove (i : Nat)
  | poll (limit : Int)

variable (transact : Db → τ × Clock → Db) (env : Env) (p : Principal)

/-- The log and the reader after an act. -/
def step (s : Feed) (a : Act τ × Clock) : Feed :=
  match a.1 with
  | .transact tx => { s with db := transact s.db (tx, a.2) }
  | .choose operations attempts batch =>
    let db := Attempts.prune env operations attempts a.2 s.db
    { s with db, chosen := s.chosen ++ [prunableEvents env batch (a.2 0) db] }
  | .remove i =>
    match s.chosen[i]? with
    | none => s
    | some ids => { s with
        db := Attempts.pruneEvents ids s.db
        chosen := s.chosen.eraseIdx i
        pruned := s.pruned ++ ids }
  | .poll limit =>
    match events env p s.reader.cursor limit a.2 s.db with
    | .ok page =>
      { s with reader := ⟨page.nextCursor, s.reader.delivered ++ page.items.map (·.id)⟩ }
    | .error _ => s

/-- The readings of the clock never decrease, within a transaction and from one to the next. -/
structure MonotoneClock (start : Time) (clocks : List Clock) : Prop where
  start : ∀ c ∈ clocks, start ≤ c 0
  each : ∀ c ∈ clocks, Monotone c
  ordered : clocks.Pairwise fun c c' => ∀ i j, c i ≤ c' j

/-- What a member who polls can rely on. -/
structure Complete (s : Feed) (acts : List (Act τ × Clock)) : Prop where
  /-- No event is delivered twice, and they are delivered in order. -/
  once : Run.Always (step transact env p) (fun s => s.reader.delivered.Pairwise (· < ·)) s acts
  forward : Run.Every (step transact env p)
    (fun s a => s.reader.cursor ≤ (step transact env p s a).reader.cursor) s acts
  /-- No poll passes an event that the member sees without delivering it. -/
  delivers : Run.Every (step transact env p) (fun s a => ∀ limit page, a.1 = .poll limit →
    events env p s.reader.cursor limit a.2 s.db = .ok page →
    ∃ member, transaction env s.db p .read (a.2 0) = .ok member ∧ ∀ e ∈ s.db.events,
      eventVisible s.db member p e = true → s.reader.cursor < e.id → e.id ≤ page.nextCursor →
      eventDict e ∈ page.items) s acts
  /-- No page is given to a member who has not passed a pruned event. -/
  stops : Run.Every (step transact env p) (fun s a => ∀ limit n, a.1 = .poll limit → n ∈ s.pruned →
    s.reader.cursor < n → ∃ e, events env p s.reader.cursor limit a.2 s.db = .error e) s acts
  /-- The answer then is that the cursor has expired. -/
  expired : Run.Every (step transact env p) (fun s a => ∀ limit n member, a.1 = .poll limit →
    n ∈ s.pruned → s.reader.cursor < n → 1 ≤ limit → limit ≤ 1000 →
    transaction env s.db p .read (a.2 0) = .ok member →
    events env p s.reader.cursor limit a.2 s.db =
    .error (cursorExpired s.db.ledger.space.eventFloor)) s acts

/-! ### What every step keeps -/

/-- The journal is ordered up to the time `t`, and what was chosen is closed under going down. -/
structure Sound (t : Time) (s : Feed) : Prop where
  ordered : Journal.Ordered Event.id Event.createdAt s.db.journal
  past : Journal.Past Event.createdAt t s.db.journal
  chosen : ∀ ids ∈ s.chosen, Journal.Selected Event.id ids s.db.journal
  reader : s.reader.Valid s.db.journal
  pruned : ∀ n ∈ s.pruned, n ≤ s.db.journal.floor

variable {transact env p}

variable {clock : Clock} {limit : Int} {s : Feed} {t : Time}

variable (transact) in
/-- After a poll that was answered the reader has read a page of the journal. -/
theorem step_poll {page : EventPage}
    (h : events env p s.reader.cursor limit clock s.db = .ok page) :
    ∃ visible : Event → Bool, s.db.journal.floor ≤ s.reader.cursor ∧
      step transact env p s (.poll limit, clock) = { s with
        reader := s.reader.read Event.id
          (Journal.page Event.id visible s.reader.cursor limit.toNat s.db.journal) } := by
  obtain ⟨member, -, hfloor, rfl⟩ := events_ok h
  refine ⟨eventVisible s.db member p, hfloor, ?_⟩
  simp only [step, h, List.map_map]
  rfl

/-- **Every step keeps the feed sound.** -/
theorem step_sound (hwritten : ∀ (db : Db) (tx : τ × Clock), ∃ k,
      Journal.Written Event.id Event.createdAt tx.2 db.journal k (transact db tx).journal)
    (h : Sound t s) (a : Act τ) (ht : t ≤ clock 0) (hm : Monotone clock) :
    ∃ k, Sound (clock k) (step transact env p s (a, clock)) := by
  have hpast : Journal.Past Event.createdAt (clock 0) s.db.journal :=
    fun e he => (h.past e he).trans ht
  cases a with
  | transact tx =>
    obtain ⟨k, hw⟩ := hwritten s.db (tx, clock)
    obtain ⟨ho, hp⟩ := h.ordered.written hm hpast hw
    obtain ⟨hlast, hfloor⟩ := hw.last_le
    exact ⟨k, ho, hp, fun ids hids => (h.chosen ids hids).written hw, h.reader.mono hlast,
      fun n hn => (h.pruned n hn).trans hfloor.ge⟩
  | choose operations attempts batch =>
    -- The log is read, and other tables are written.
    refine ⟨0, h.ordered, hpast, fun ids hids => ?_, h.reader, h.pruned⟩
    rcases Table.mem_concat.mp hids with hids | rfl
    · exact h.chosen ids hids
    · rw [prunableEvents_eq]
      exact h.ordered.selected _ _
  | remove i =>
    cases hget : s.chosen[i]? with
    | none =>
      simp only [step, hget]
      exact ⟨0, h.ordered, hpast, h.chosen, h.reader, h.pruned⟩
    | some ids =>
      simp only [step, hget]
      have hsel := h.chosen ids (List.mem_of_getElem? hget)
      obtain ⟨hfloor, hids⟩ := Journal.le_foldl_max ids s.db.journal.floor
      refine ⟨0, h.ordered.trim hsel, hpast.trim ids, fun ids' hmem => ?_,
        h.reader.mono (Nat.le_refl _), fun n hn => ?_⟩
      · exact (h.chosen ids' (List.mem_of_mem_eraseIdx hmem)).trim ids
      · rcases List.mem_append.mp hn with hn | hn
        · exact (h.pruned n hn).trans hfloor
        · exact hids n hn
  | poll limit =>
    cases hpoll : events env p s.reader.cursor limit clock s.db with
    | error e =>
      refine ⟨0, ?_⟩
      simp only [step, hpoll]
      exact ⟨h.ordered, hpast, h.chosen, h.reader, h.pruned⟩
    | ok page =>
      obtain ⟨visible, hfloor, hstep⟩ := step_poll transact hpoll
      rw [hstep]
      exact ⟨0, h.ordered, hpast, h.chosen, (h.reader.read h.ordered visible limit.toNat hfloor).1,
        h.pruned⟩

/-- No step takes the cursor back. -/
theorem cursor_le_step (h : Sound t s) (a : Act τ × Clock) :
    s.reader.cursor ≤ (step transact env p s a).reader.cursor := by
  obtain ⟨a, clock⟩ := a
  cases a with
  | transact tx | choose operations attempts batch => exact Nat.le_refl _
  | remove i =>
    cases hget : s.chosen[i]? <;> simp only [step, hget, Nat.le_refl]
  | poll limit =>
    cases hpoll : events env p s.reader.cursor limit clock s.db with
    | error e => simp only [step, hpoll, Nat.le_refl]
    | ok page =>
      obtain ⟨visible, hfloor, hstep⟩ := step_poll transact hpoll
      rw [hstep]
      exact (h.reader.read h.ordered visible limit.toNat hfloor).2

/-- A page that is answered has every event that it passes. -/
theorem page_delivers (h : Sound t s) {page : EventPage}
    (hpoll : events env p s.reader.cursor limit clock s.db = .ok page) :
    ∃ member, transaction env s.db p .read (clock 0) = .ok member ∧ ∀ e ∈ s.db.events,
      eventVisible s.db member p e = true → s.reader.cursor < e.id → e.id ≤ page.nextCursor →
      eventDict e ∈ page.items := by
  obtain ⟨member, hmember, -, rfl⟩ := events_ok hpoll
  refine ⟨member, hmember, fun e he hv hafter hcursor => ?_⟩
  exact List.mem_map_of_mem
    (Journal.page_complete h.ordered (eventVisible s.db member p) he hv hafter hcursor)

/-- Below a pruned event there is no page. -/
theorem no_page (h : Sound t s) {n : Nat} (hn : n ∈ s.pruned)
    (hlt : s.reader.cursor < n) :
    ∃ e, events env p s.reader.cursor limit clock s.db = .error e := by
  cases hpoll : events env p s.reader.cursor limit clock s.db with
  | error e => exact ⟨e, rfl⟩
  | ok page =>
    obtain ⟨-, -, hfloor, -⟩ := events_ok hpoll
    have := h.pruned n hn
    omega

/-! ### Runs -/

theorem MonotoneClock.tail {start : Time} {c : Clock} {cs : List Clock}
    (h : MonotoneClock start (c :: cs)) (k : Nat) :
    MonotoneClock (c k) cs where
  start c' hc' := (List.pairwise_cons.mp h.ordered).1 c' hc' k 0
  each c' hc' := h.each c' (List.mem_cons_of_mem c hc')
  ordered := (List.pairwise_cons.mp h.ordered).2

section Runs

variable (hwritten : ∀ (db : Db) (tx : τ × Clock), ∃ k,
  Journal.Written Event.id Event.createdAt tx.2 db.journal k (transact db tx).journal)
include hwritten

/-- What holds of every step from a sound feed holds along a run under a monotone clock. -/
theorem every_of_sound {D : Feed → Act τ × Clock → Prop} (hD : ∀ t s a, Sound t s → D s a)
    (acts : List (Act τ × Clock)) {t : Time} {s : Feed} (h : Sound t s)
    (hc : MonotoneClock t (acts.map (·.2))) :
    Run.Every (step transact env p) D s acts := by
  induction acts generalizing t s with
  | nil => trivial
  | cons a acts ih =>
    obtain ⟨k, hk⟩ : ∃ k, Sound (a.2 k) (step transact env p s a) :=
      step_sound hwritten h a.1 (hc.start a.2 List.mem_cons_self) (hc.each a.2 List.mem_cons_self)
    exact ⟨hD t s a h, ih hk (hc.tail k)⟩

theorem always_of_sound {P : Feed → Prop} (hP : ∀ t s, Sound t s → P s)
    (acts : List (Act τ × Clock)) {t : Time} {s : Feed} (h : Sound t s)
    (hc : MonotoneClock t (acts.map (·.2))) : Run.Always (step transact env p) P s acts := by
  induction acts generalizing t s with
  | nil => exact hP t s h
  | cons a acts ih =>
    obtain ⟨k, hk⟩ : ∃ k, Sound (a.2 k) (step transact env p s a) :=
      step_sound hwritten h a.1 (hc.start a.2 List.mem_cons_self) (hc.each a.2 List.mem_cons_self)
    exact ⟨hP t s h, ih hk (hc.tail k)⟩

theorem complete_of_sound (acts : List (Act τ × Clock)) {t : Time} {s : Feed} (h : Sound t s)
    (hc : MonotoneClock t (acts.map (·.2))) : Complete transact env p s acts where
  once := always_of_sound hwritten (fun _ _ hs => hs.reader.delivered) acts h hc
  forward := every_of_sound hwritten (fun _ _ a hs => cursor_le_step hs a) acts h hc
  delivers := every_of_sound hwritten (fun _ _ _ hs _ _ _ hpoll => page_delivers hs hpoll) acts h hc
  stops := every_of_sound hwritten (fun _ _ _ hs _ _ _ hn hlt => no_page hs hn hlt) acts h hc
  expired := by
    refine every_of_sound hwritten (fun t s a hs limit n member _ hn hlt h1 h2 hmember => ?_)
      acts h hc
    have := hs.pruned n hn
    exact events_expired ⟨h1, h2⟩ hmember (by omega)

end Runs

/-- A new space has one event. -/
theorem created_sound (spaceId profile : String) (limits : Limits) (creator : Principal)
    (now : Time) :
    Sound now { db := Db.created spaceId profile limits creator now } where
  ordered :=
    { entries := List.pairwise_singleton _ _
      last := fun e he => by rw [List.mem_singleton.mp he]; rfl
      above := fun e he => by rw [List.mem_singleton.mp he]; exact Nat.zero_lt_one
      floor := Nat.zero_le _
      top := Or.inl ⟨_, List.mem_singleton.mpr rfl, rfl⟩ }
  past e he := by rw [List.mem_singleton.mp he]
  chosen _ h := absurd h List.not_mem_nil
  reader := ⟨List.Pairwise.nil, fun _ h => absurd h List.not_mem_nil, Nat.zero_le _⟩
  pruned _ h := absurd h List.not_mem_nil

end Feed

/-- A transaction that retention has no part in writes the log at readings of its clock. -/
theorem Db.Maintained.written {clock : Clock} {db db' : Db} (h : db.Maintained clock [] db') :
    ∃ k, Journal.Written Event.id Event.createdAt clock db.journal k db'.journal := by
  generalize hids : ([] : List Nat) = ids at h
  cases h with
  | recorded h => exact h.events
  | pruned keep _ hj => exact ⟨0, hj ▸ .same⟩
  | prunedEvents ids =>
    subst hids
    refine ⟨0, ?_⟩
    have hsame : (Attempts.pruneEvents [] db).journal = db.journal := by
      simp [Db.journal, Attempts.pruneEvents]
    rw [hsame]
    exact .same

namespace Python

/-- Every transaction but the one that removes events. -/
abbrev OtherTx : Type := { tx : Tx // tx.pruned = [] }

/-- The database after a transaction of a run with a feed. -/
def transact (env : Env) (db : Db) (tx : OtherTx × Clock) : Db := step env db (tx.1.1, tx.2)

theorem transact_written (env : Env) (db : Db) (tx : OtherTx × Clock) :
    ∃ k, Journal.Written Event.id Event.createdAt tx.2 db.journal k
      (transact env db tx).journal := by
  obtain ⟨ids, hids, hm⟩ := (step_stepped env db (tx.1.1, tx.2)).maintained
  obtain rfl := hids tx.1.2
  exact hm.written

end Python

namespace Go

/-- Every transaction but the one that removes events. -/
abbrev OtherTx : Type := { tx : Tx // tx.pruned = [] }

/-- The database after a transaction of a run with a feed. -/
def transact (env : Env) (db : Db) (tx : OtherTx × Clock) : Db := step env db (tx.1.1, tx.2)

theorem transact_written (env : Env) (db : Db) (tx : OtherTx × Clock) :
    ∃ k, Journal.Written Event.id Event.createdAt tx.2 db.journal k
      (transact env db tx).journal := by
  obtain ⟨ids, hids, hm⟩ := (step_stepped env db (tx.1.1, tx.2)).maintained
  obtain rfl := hids tx.1.2
  exact hm.written

end Go

/-- **The event feed is complete, in both services.** Under a monotone clock a member who polls from
the start is given no event twice and never taken back, is given every event that it sees and
passes, and is told that its cursor has expired when an event that it has not passed is pruned. -/
theorem event_feed_complete (env : Env) (spaceId profile : String) (limits : Limits)
    (creator p : Principal) (now : Time) :
    (∀ acts : List (Feed.Act Python.OtherTx × Clock), Feed.MonotoneClock now (acts.map (·.2)) →
        Feed.Complete (Python.transact env) env p
          { db := Db.created spaceId profile limits creator now } acts) ∧
      ∀ acts : List (Feed.Act Go.OtherTx × Clock), Feed.MonotoneClock now (acts.map (·.2)) →
        Feed.Complete (Go.transact env) env p
          { db := Db.created spaceId profile limits creator now } acts :=
  have hcreated := Feed.created_sound spaceId profile limits creator now
  ⟨fun acts => Feed.complete_of_sound (Python.transact_written env) acts hcreated,
    fun acts => Feed.complete_of_sound (Go.transact_written env) acts hcreated⟩

namespace Sample

/-- A new member, a prune pass and two polls. -/
def polling : List (Feed.Act Python.OtherTx × Clock) :=
  [(.transact ⟨.command owner (.putMember "guest" ⟨some "guest", [.reader], .obj []⟩), rfl⟩,
    still 1), (.poll 1, still 2), (.choose (fun _ => false) (fun _ => false) 1, still 2000000),
    (.remove 0, still 2000000), (.poll 10, still 2000000)]

theorem polling_clock : Feed.MonotoneClock 0 (polling.map (·.2)) where
  start := by
    simp [polling, still]
  each := by
    simp [polling, still, Monotone]
  ordered := by
    simp [polling, still]

end Sample

/-- A run in which the owner is given both events, and the first is pruned. -/
theorem event_feed_polled :
    (Sample.polling.foldl (Feed.step (Python.transact Sample.env) Sample.env Sample.owner)
        { db := Db.created "s" "generic.v1" Sample.limits Sample.owner 0 }).reader.delivered =
          [1, 2] ∧
      Feed.Complete (Python.transact Sample.env) Sample.env Sample.owner
        { db := Db.created "s" "generic.v1" Sample.limits Sample.owner 0 } Sample.polling :=
  ⟨by decide +kernel,
    (event_feed_complete Sample.env "s" "generic.v1" Sample.limits Sample.owner Sample.owner 0).1
    Sample.polling Sample.polling_clock⟩

end Hf2l.Exchange
