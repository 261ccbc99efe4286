/-
The event reads (`store/events.rs`) and a consumer that pages with them.

The cursors and limits of the API are `u64` and `usize`, and the statements bind
them `as i64`. A limit that wraps becomes negative, and a negative LIMIT is no
limit, which is right for a limit that large. A cursor that wraps becomes negative
too, and then every event comes after it.
-/
import MiniSqlite.EventLog
import MiniSqlite.Lib.Paging
import Mathlib.Order.OrderDual

set_option autoImplicit false

namespace MiniSqlite

open Txn Rows Labelled Runs Numbering

/-! ## `as i64` -/

theorem toInt_cast_of_lt {v : UInt64} (h : v.toNat < 2 ^ 63) : v.toInt64.toInt = v.toNat := by
  have hcond := BitVec.toInt_eq_toNat_cond v.toBitVec
  rw [if_pos (by rw [UInt64.toNat_toBitVec]; omega)] at hcond
  exact hcond

theorem toInt_cast_neg {v : UInt64} (h : 2 ^ 63 ≤ v.toNat) : v.toInt64.toInt < 0 := by
  have hlt := v.toNat_lt
  have hcond := BitVec.toInt_eq_toNat_cond v.toBitVec
  rw [if_neg (by rw [UInt64.toNat_toBitVec]; omega), UInt64.toNat_toBitVec] at hcond
  have hvalue : v.toInt64.toInt = (v.toNat : ℤ) - (2 ^ 64 : ℕ) := hcond
  omega

/-- `LIMIT ?`: a negative limit is none. -/
def limited {α : Type} (limit : Int64) (rows : List α) : List α :=
  if limit.toInt < 0 then rows else rows.take limit.toInt.toNat

theorem limited_cast {α : Type} {rows : List α} (limit : UInt64) (h : rows.length < 2 ^ 63) :
    limited limit.toInt64 rows = rows.take limit.toNat := by
  unfold limited
  rcases Nat.lt_or_ge limit.toNat (2 ^ 63) with hlimit | hlimit
  · rw [toInt_cast_of_lt hlimit, if_neg (by omega), Int.toNat_natCast]
  · rw [if_pos (toInt_cast_neg hlimit), List.take_of_length_le (by omega)]

/-! ## The reads -/

/-- An event after it has been assigned a global sequence and stream version. -/
structure PersistedEvent where
  transaction_id : Id
  global_sequence : UInt64
  stream_version : UInt64
  event : Event
deriving DecidableEq

/-- `row_to_persisted_event`. -/
def EventRow.to_persisted_event (r : EventRow) : PersistedEvent where
  transaction_id := r.transaction_id
  global_sequence := UInt64.ofNat r.global_sequence
  stream_version := r.stream_version
  event := r.event

/-- `SELECT … FROM events WHERE global_sequence > ?1 ORDER BY global_sequence LIMIT ?2`. -/
def Db.events_after (after limit : Int64) (db : Db) : List EventRow :=
  limited limit (orderBy EventRow.global_sequence
    (db.events.filter fun r => after.toInt < r.global_sequence))

/-- `SELECT … FROM events WHERE stream_id = ?1 AND stream_version >= ?2
ORDER BY stream_version LIMIT ?3`. -/
def Db.stream_events_from (stream_id : String) (from_version limit : Int64) (db : Db) :
    List EventRow :=
  -- The column holds the `u64` cast to `i64`.
  limited limit (orderBy (fun r : EventRow => r.stream_version.toInt64.toInt)
    (db.events.filter fun r =>
      r.event.stream_id = stream_id && from_version.toInt ≤ r.stream_version.toInt64.toInt))

/-- `SELECT … FROM events ORDER BY global_sequence DESC LIMIT ?1`. -/
def Db.events_desc (limit : Int64) (db : Db) : List EventRow :=
  limited limit (orderBy (fun r : EventRow => OrderDual.toDual r.global_sequence) db.events)

/-- Events with a global sequence strictly greater than `after`, oldest first. -/
def events_after (after limit : UInt64) : Sql StorageError (List PersistedEvent) := do
  let rows ← query (Db.events_after after.toInt64 limit.toInt64)
  return rows.map EventRow.to_persisted_event

/-- Events for one stream with a stream version of at least `from_version`, oldest first. -/
def stream_events (stream_id : String) (from_version limit : UInt64) :
    Sql StorageError (List PersistedEvent) := do
  let rows ← query (Db.stream_events_from stream_id from_version.toInt64 limit.toInt64)
  return rows.map EventRow.to_persisted_event

/-- The most recent `limit` events, oldest first. -/
def last_events (limit : UInt64) : Sql StorageError (List PersistedEvent) := do
  let rows ← query (Db.events_desc limit.toInt64)
  return (rows.map EventRow.to_persisted_event).reverse

namespace ControlPlaneStore

/-- A read on a reader connection. -/
def with_reader {α : Type} (f : Sql Error α) (s : ControlPlaneStore) (w : World Id) :
    Except Error α :=
  (read f w s.db).1

def events_after (after limit : UInt64) (s : ControlPlaneStore) (w : World Id) :
    Except Error (List PersistedEvent) :=
  s.with_reader (MiniSqlite.events_after after limit).orStorage w

def stream_events (stream_id : String) (from_version limit : UInt64) (s : ControlPlaneStore)
    (w : World Id) : Except Error (List PersistedEvent) :=
  s.with_reader (MiniSqlite.stream_events stream_id from_version limit).orStorage w

def last_events (limit : UInt64) (s : ControlPlaneStore) (w : World Id) :
    Except Error (List PersistedEvent) :=
  s.with_reader (MiniSqlite.last_events limit).orStorage w

/-- A read answers what its statements say, or fails. -/
theorem with_reader_answer {α : Type} {f : Sql Error α} {s : ControlPlaneStore} {a : α}
    (h : ∀ supply, f.eval s.db supply = .ok (a, s.db, supply)) :
    (∀ supply, s.with_reader f (World.faultFree supply) = .ok a) ∧
      ∀ w answer, s.with_reader f w = .ok answer → answer = a := by
  constructor
  · intro supply
    exact congrArg Prod.fst (Tx.run_of_eval (h supply))
  · intro w answer hanswer
    obtain ⟨_, _, heval⟩ := Tx.eval_of_answer (x := f) (s := ⟨s.db, w.fuse, w.supply⟩) hanswer
    rw [h w.supply] at heval
    exact (congrArg Prod.fst (Except.ok.inj heval)).symm

end ControlPlaneStore

/-! ## What the reads promise -/

namespace Db

/-- The events past a sequence, in order. -/
def events_past (after : ℕ) (db : Db) : List EventRow :=
  orderBy EventRow.global_sequence (db.events.filter fun r => after < r.global_sequence)

/-- The events of a stream from a version on, in order. -/
def stream_from (stream_id : String) (from_version : ℕ) (db : Db) : List EventRow :=
  orderBy (fun r : EventRow => r.stream_version.toNat)
    ((db.stream_events stream_id).filter fun r => from_version ≤ r.stream_version.toNat)

end Db

/-- The reads of these cursors and this limit are the ones the documentation describes. -/
structure HonoursCursors (s : ControlPlaneStore) (after from_version limit : UInt64)
    (stream_id : String) : Prop where
  events_after : ∀ supply, s.events_after after limit (World.faultFree supply)
    = .ok (((s.db.events_past after.toNat).take limit.toNat).map EventRow.to_persisted_event)
  stream_events : ∀ supply, s.stream_events stream_id from_version limit (World.faultFree supply)
    = .ok (((s.db.stream_from stream_id from_version.toNat).take limit.toNat).map
      EventRow.to_persisted_event)
  last_events : ∀ supply, s.last_events limit (World.faultFree supply)
    = .ok ((s.db.events.drop (s.db.events.length - limit.toNat)).map EventRow.to_persisted_event)

section Reads

variable {db : Db} {version : String → UInt64}

/-- The log is in order already. -/
theorem LogInvariant.events_past (h : LogInvariant version db) (after : ℕ) :
    db.events_past after = db.events.drop after := by
  have hdrop : (db.events.filter fun r => after < r.global_sequence) = db.events.drop after :=
    h.sequences.filter_lt after
  rw [Db.events_past, hdrop]
  refine orderBy_of_sorted (List.Pairwise.sublist (List.drop_sublist _ _) ?_)
  exact h.sequences.increasing.imp fun hlt => le_of_lt hlt

theorem LogInvariant.stream_length_lt (h : LogInvariant version db) (stream_id : String) :
    (db.stream_events stream_id).length < 2 ^ 63 := by
  have hle : (db.stream_events stream_id).length ≤ db.events.length := List.length_filter_le _ _
  have hroom := h.room
  rw [Db.MAX_ROWID] at hroom
  omega

/-- Stream versions count events, so their casts are exact. -/
theorem LogInvariant.stream_version_lt (h : LogInvariant version db) {r : EventRow}
    (hr : r ∈ db.events) : r.stream_version.toNat < 2 ^ 63 := by
  have hmem : r ∈ db.stream_events r.stream_id := mem_of.mpr ⟨hr, rfl⟩
  have hle := ((h.versions r.stream_id).mem hmem).2
  have hlt := h.stream_length_lt r.stream_id
  omega

theorem LogInvariant.length_lt (h : LogInvariant version db) : db.events.length < 2 ^ 63 := by
  have hroom := h.room
  rw [Db.MAX_ROWID] at hroom
  omega

theorem LogInvariant.events_after (h : LogInvariant version db) {after : UInt64}
    (hafter : after.toNat < 2 ^ 63) (limit : UInt64) :
    db.events_after after.toInt64 limit.toInt64
      = (db.events_past after.toNat).take limit.toNat := by
  have hfilter : (db.events.filter fun r => after.toInt64.toInt < r.global_sequence)
      = db.events.filter fun r => after.toNat < r.global_sequence := by
    refine List.filter_congr ?_
    intro r _
    rw [toInt_cast_of_lt hafter]
    exact decide_eq_decide.mpr Int.ofNat_lt
  rw [Db.events_after, hfilter]
  refine limited_cast limit ?_
  have hlength := congrArg List.length (h.events_past after.toNat)
  have hlt := h.length_lt
  rw [Db.events_past, List.length_drop] at hlength
  omega

/-- Past a cursor that wraps come all events. -/
theorem LogInvariant.events_after_wrapped (h : LogInvariant version db) {after : UInt64}
    (hafter : 2 ^ 63 ≤ after.toNat) (limit : UInt64) :
    db.events_after after.toInt64 limit.toInt64 = db.events.take limit.toNat := by
  have hfilter : (db.events.filter fun r => after.toInt64.toInt < r.global_sequence)
      = db.events := by
    refine List.filter_eq_self.mpr ?_
    intro r _
    have hneg := toInt_cast_neg hafter
    rw [decide_eq_true_eq]
    omega
  rw [Db.events_after, hfilter, orderBy_of_sorted
    (h.sequences.increasing.imp fun hlt => le_of_lt hlt)]
  exact limited_cast limit h.length_lt

theorem LogInvariant.stream_sorted (h : LogInvariant version db) (stream_id : String) :
    (db.stream_events stream_id).Pairwise fun a b =>
      a.stream_version.toNat ≤ b.stream_version.toNat :=
  (h.versions stream_id).increasing.imp fun hlt => le_of_lt hlt

/-- The statement selects from the events of the stream. -/
theorem LogInvariant.stream_filter (h : LogInvariant version db) (stream_id : String)
    (from_version limit : UInt64) {p : EventRow → Bool}
    (hp : ∀ r ∈ db.stream_events stream_id,
      decide (from_version.toInt64.toInt ≤ r.stream_version.toInt64.toInt) = p r) :
    db.stream_events_from stream_id from_version.toInt64 limit.toInt64
      = ((db.stream_events stream_id).filter p).take limit.toNat := by
  have hfilter : (db.events.filter fun r => r.event.stream_id = stream_id &&
      from_version.toInt64.toInt ≤ r.stream_version.toInt64.toInt)
      = (db.stream_events stream_id).filter p := by
    rw [← List.filter_congr hp, Db.stream_events, Numbering.of, List.filter_filter]
    refine List.filter_congr ?_
    intro r _
    rw [Bool.and_comm]
    rfl
  -- The rows of a stream are stored in the order of their versions already.
  have hsorted : ((db.stream_events stream_id).filter p).Pairwise fun a b =>
      a.stream_version.toInt64.toInt ≤ b.stream_version.toInt64.toInt := by
    refine List.Pairwise.imp_of_mem ?_ ((h.stream_sorted stream_id).sublist List.filter_sublist)
    intro a b ha hb hle
    rw [toInt_cast_of_lt (h.stream_version_lt (mem_of.mp (List.mem_filter.mp ha).1).1),
      toInt_cast_of_lt (h.stream_version_lt (mem_of.mp (List.mem_filter.mp hb).1).1)]
    exact Int.ofNat_le.mpr hle
  rw [Db.stream_events_from, hfilter, orderBy_of_sorted hsorted]
  refine limited_cast limit ?_
  exact lt_of_le_of_lt (List.length_filter_le _ _) (h.stream_length_lt stream_id)

theorem LogInvariant.stream_events_from (h : LogInvariant version db) (stream_id : String)
    {from_version : UInt64} (hfrom : from_version.toNat < 2 ^ 63) (limit : UInt64) :
    db.stream_events_from stream_id from_version.toInt64 limit.toInt64
      = (db.stream_from stream_id from_version.toNat).take limit.toNat := by
  rw [h.stream_filter stream_id from_version limit
    (p := fun r => from_version.toNat ≤ r.stream_version.toNat), Db.stream_from,
    orderBy_of_sorted ((h.stream_sorted stream_id).sublist List.filter_sublist)]
  intro r hr
  rw [toInt_cast_of_lt hfrom, toInt_cast_of_lt (h.stream_version_lt (mem_of.mp hr).1)]
  exact decide_eq_decide.mpr Int.ofNat_le

/-- From a version that wraps on comes the whole stream. -/
theorem LogInvariant.stream_events_wrapped (h : LogInvariant version db) (stream_id : String)
    {from_version : UInt64} (hfrom : 2 ^ 63 ≤ from_version.toNat) (limit : UInt64) :
    db.stream_events_from stream_id from_version.toInt64 limit.toInt64
      = (db.stream_events stream_id).take limit.toNat := by
  rw [h.stream_filter stream_id from_version limit (p := fun _ => true), List.filter_true]
  intro r hr
  have hneg := toInt_cast_neg hfrom
  rw [toInt_cast_of_lt (h.stream_version_lt (mem_of.mp hr).1), decide_eq_true_eq]
  omega

/-- The last events, newest first. -/
theorem LogInvariant.events_desc (h : LogInvariant version db) (limit : UInt64) :
    (db.events_desc limit.toInt64).reverse
      = db.events.drop (db.events.length - limit.toNat) := by
  rw [Db.events_desc, orderBy_desc h.sequences.increasing, limited_cast limit
    (by rw [List.length_reverse]; exact h.length_lt), List.reverse_take, List.reverse_reverse,
    List.length_reverse]

end Reads

/-! ## The answers -/

section Answers

variable {s : ControlPlaneStore}

theorem events_after_answer (after limit : UInt64) (supply : List Id) :
    (events_after after limit).orStorage.eval s.db supply
      = .ok ((s.db.events_after after.toInt64 limit.toInt64).map EventRow.to_persisted_event,
          s.db, supply) := rfl

theorem stream_events_answer (stream_id : String) (from_version limit : UInt64)
    (supply : List Id) : (stream_events stream_id from_version limit).orStorage.eval s.db supply
      = .ok ((s.db.stream_events_from stream_id from_version.toInt64 limit.toInt64).map
          EventRow.to_persisted_event, s.db, supply) := rfl

theorem last_events_answer (limit : UInt64) (supply : List Id) :
    (last_events limit).orStorage.eval s.db supply
      = .ok (((s.db.events_desc limit.toInt64).map EventRow.to_persisted_event).reverse,
          s.db, supply) := rfl

/-- A page that is empty either way tells nothing about the cursor. -/
theorem take_map_eq_nil {rows : List EventRow} {limit : UInt64} :
    ((rows.take limit.toNat).map EventRow.to_persisted_event) = [] ↔ limit = 0 ∨ rows = [] := by
  rw [List.map_eq_nil_iff, List.take_eq_nil_iff, ← UInt64.toNat_inj]
  rfl

/-- The read past a cursor is the documented one iff the cursor does not wrap, or has nothing to
wrap around to. -/
theorem LogInvariant.events_after_iff {db : Db} {version : String → UInt64}
    (h : LogInvariant version db) (after limit : UInt64) :
    (db.events_after after.toInt64 limit.toInt64).map EventRow.to_persisted_event
        = ((db.events_past after.toNat).take limit.toNat).map EventRow.to_persisted_event ↔
      after.toNat < 2 ^ 63 ∨ limit = 0 ∨ db.events = [] := by
  rcases Nat.lt_or_ge after.toNat (2 ^ 63) with hlt | hge
  · rw [h.events_after hlt]
    exact iff_of_true rfl (Or.inl hlt)
  · -- The read answers with the whole log, and it should answer with nothing.
    have hbeyond : db.events_past after.toNat = [] := by
      rw [h.events_past]
      exact List.drop_eq_nil_of_le (le_trans h.length_lt.le hge)
    rw [h.events_after_wrapped hge, hbeyond, List.take_nil, List.map_nil, take_map_eq_nil]
    exact (or_iff_right (Nat.not_lt.mpr hge)).symm

/-- The same of the read of a stream. -/
theorem LogInvariant.stream_events_iff {db : Db} {version : String → UInt64}
    (h : LogInvariant version db) (stream_id : String) (from_version limit : UInt64) :
    (db.stream_events_from stream_id from_version.toInt64 limit.toInt64).map
          EventRow.to_persisted_event
        = ((db.stream_from stream_id from_version.toNat).take limit.toNat).map
          EventRow.to_persisted_event ↔
      from_version.toNat < 2 ^ 63 ∨ limit = 0 ∨ db.stream_events stream_id = [] := by
  rcases Nat.lt_or_ge from_version.toNat (2 ^ 63) with hlt | hge
  · rw [h.stream_events_from stream_id hlt]
    exact iff_of_true rfl (Or.inl hlt)
  · have hbeyond : db.stream_from stream_id from_version.toNat = [] := by
      rw [Db.stream_from, List.filter_eq_nil_iff.mpr]
      · rfl
      · intro r hr hle
        have hlt := h.stream_version_lt (mem_of.mp hr).1
        rw [decide_eq_true_eq] at hle
        omega
    rw [h.stream_events_wrapped stream_id hge, hbeyond, List.take_nil, List.map_nil,
      take_map_eq_nil]
    exact (or_iff_right (Nat.not_lt.mpr hge)).symm

/-- Exactly the cursors that do not wrap, or have nothing to wrap around to, are honoured. -/
theorem honoursCursors_iff (hs : s.Sound) (after from_version limit : UInt64)
    (stream_id : String) : HonoursCursors s after from_version limit stream_id ↔
      (after.toNat < 2 ^ 63 ∨ limit = 0 ∨ s.db.events = []) ∧
        (from_version.toNat < 2 ^ 63 ∨ limit = 0 ∨ s.db.stream_events stream_id = []) := by
  have hafter := ControlPlaneStore.with_reader_answer (events_after_answer (s := s) after limit)
  have hstream := ControlPlaneStore.with_reader_answer
    (stream_events_answer (s := s) stream_id from_version limit)
  have hlast := ControlPlaneStore.with_reader_answer (last_events_answer (s := s) limit)
  rw [← hs.log.events_after_iff after limit,
    ← hs.log.stream_events_iff stream_id from_version limit]
  constructor
  · intro h
    exact ⟨Except.ok.inj ((hafter.1 []).symm.trans (h.events_after [])),
      Except.ok.inj ((hstream.1 []).symm.trans (h.stream_events []))⟩
  · rintro ⟨hcursor, hversion⟩
    refine ⟨fun supply => ?_, fun supply => ?_, fun supply => ?_⟩
    · exact (hafter.1 supply).trans (congrArg Except.ok hcursor)
    · exact (hstream.1 supply).trans (congrArg Except.ok hversion)
    · refine (hlast.1 supply).trans (congrArg Except.ok ?_)
      rw [← List.map_reverse, hs.log.events_desc]

end Answers

/-! ## A consumer -/

/-- The cursor after a page: the sequence of its last event. -/
def next_cursor (after : UInt64) (page : List PersistedEvent) : UInt64 :=
  (page.getLast?.map PersistedEvent.global_sequence).getD after

/-- What `events_after` answers when nothing fails. -/
def ControlPlaneStore.page (after limit : UInt64) (s : ControlPlaneStore) : List PersistedEvent :=
  (s.db.events_after after.toInt64 limit.toInt64).map EventRow.to_persisted_event

/-- The pages of a consumer that starts at `after` and goes on from the last sequence it has
seen. In each round some calls run first, and then it asks for a page with this limit. -/
def consume (s : ControlPlaneStore) (after : UInt64) :
    List (List Input × UInt64) → List (List PersistedEvent)
  | [] => []
  | (inputs, limit) :: rounds =>
    let s' := exec step s inputs
    s'.page after limit :: consume s' (next_cursor after (s'.page after limit)) rounds

/-- The state the last round found. -/
def consumed (s : ControlPlaneStore) (rounds : List (List Input × UInt64)) : ControlPlaneStore :=
  exec step s (rounds.flatMap Prod.fst)

/-- The logs the rounds find, with their limits. -/
def rounds_of (s : ControlPlaneStore) : List (List Input × UInt64) → List (List EventRow × ℕ)
  | [] => []
  | (inputs, limit) :: rounds =>
    ((exec step s inputs).db.events, limit.toNat) :: rounds_of (exec step s inputs) rounds

section Consumer

variable {s : ControlPlaneStore}

theorem exec_sound (hs : s.Sound) (inputs : List Input) : (exec step s inputs).Sound :=
  exec_invariant (fun _ i h => h.step i) hs inputs

theorem page_eq (hs : s.Sound) {after : UInt64} (hafter : after.toNat ≤ s.db.events.length)
    (limit : UInt64) : s.page after limit
      = ((s.db.events.drop after.toNat).take limit.toNat).map EventRow.to_persisted_event := by
  have hlt := hs.log.length_lt
  rw [ControlPlaneStore.page, hs.log.events_after (by omega), hs.log.events_past]

/-- The cursor counts the events received. -/
theorem next_cursor_page (hs : s.Sound) {after : UInt64}
    (hafter : after.toNat ≤ s.db.events.length) (limit : UInt64) :
    (next_cursor after (s.page after limit)).toNat
      = after.toNat + ((s.db.events.drop after.toNat).take limit.toNat).length := by
  rw [page_eq hs hafter, next_cursor, List.getLast?_map, Option.map_map]
  rcases hlast : ((s.db.events.drop after.toNat).take limit.toNat).getLast? with _ | r
  · rw [List.getLast?_eq_none_iff.mp hlast]
    rfl
  · -- The events are numbered from one, so the last one tells how many there were.
    have hlog := hs.log.sequences.take (after.toNat + limit.toNat)
    rw [List.take_add] at hlog
    have hnumber := hlog.last (a := r) (by rw [List.getLast?_append, hlast]; rfl)
    rw [List.length_append, List.length_take, Nat.min_eq_left hafter] at hnumber
    have hle : ((s.db.events.drop after.toNat).take limit.toNat).length
        ≤ s.db.events.length - after.toNat := by
      rw [List.length_take, List.length_drop]
      exact Nat.min_le_right _ _
    have hlt := hs.log.length_lt
    show (UInt64.ofNat r.global_sequence).toNat = _
    rw [UInt64.toNat_ofNat_of_lt' (by rw [UInt64.size]; omega), hnumber]

/-- Every log the consumer finds is the beginning of the last one. -/
theorem rounds_of_growing (hs : s.Sound) (rounds : List (List Input × UInt64)) :
    ∀ round ∈ rounds_of s rounds, s.db.events <+: round.1
      ∧ round.1 <+: (consumed s rounds).db.events := by
  induction rounds generalizing s with
  | nil => intro round hround; cases hround
  | cons round rounds ih =>
      obtain ⟨inputs, limit⟩ := round
      have hs' := exec_sound hs inputs
      have hgrown := (exec_continues hs inputs).1
      have hlater : (exec step s inputs).db.events
          <+: (consumed s ((inputs, limit) :: rounds)).db.events := by
        rw [consumed, List.flatMap_cons, exec_append]
        exact (exec_continues hs' _).1
      intro round hround
      rcases List.mem_cons.mp hround with rfl | hround
      · exact ⟨hgrown, hlater⟩
      · obtain ⟨hfound, hend⟩ := ih hs' round hround
        rw [consumed, List.flatMap_cons, exec_append]
        exact ⟨hgrown.trans hfound, hend⟩

/-- The consumer pages through the log. -/
theorem consume_eq_pages (hs : s.Sound) {after : UInt64}
    (hafter : after.toNat ≤ s.db.events.length) (rounds : List (List Input × UInt64)) :
    consume s after rounds
      = (Paging.pages after.toNat (rounds_of s rounds)).map
          (List.map EventRow.to_persisted_event) := by
  induction rounds generalizing s after with
  | nil => rfl
  | cons round rounds ih =>
      obtain ⟨inputs, limit⟩ := round
      have hs' := exec_sound hs inputs
      have hafter' : after.toNat ≤ (exec step s inputs).db.events.length :=
        le_trans hafter (exec_continues hs inputs).1.length_le
      have hcursor := next_cursor_page hs' hafter' limit
      have hnext : (next_cursor after ((exec step s inputs).page after limit)).toNat
          ≤ (exec step s inputs).db.events.length := by
        rw [hcursor, List.length_take, List.length_drop]
        omega
      rw [consume, rounds_of, Paging.pages, List.map_cons, ih hs' hnext, hcursor,
        page_eq hs' hafter']

end Consumer

/-- The promise of the reads to a consumer that starts at `after`: what it has received is
the log past `after`, in order; a page below its limit, in particular an empty one, has
brought it to the end; and each page brings something until it has caught up. -/
structure ReceivesAll (s : ControlPlaneStore) (after : UInt64)
    (rounds : List (List Input × UInt64)) : Prop where
  in_order : (consume s after rounds).flatten
    = (((consumed s rounds).db.events.drop after.toNat).map EventRow.to_persisted_event).take
        (consume s after rounds).flatten.length
  complete : ∀ before inputs limit, rounds = before ++ [(inputs, limit)] →
    ((consume s after rounds).getLast?.any fun page => page.length < limit.toNat) = true →
      (consume s after rounds).flatten
        = ((consumed s rounds).db.events.drop after.toNat).map EventRow.to_persisted_event
  progress : min rounds.length (s.db.events.length - after.toNat)
    ≤ (consume s after rounds).flatten.length

theorem rounds_of_append (s : ControlPlaneStore) (rounds : List (List Input × UInt64))
    (inputs : List Input) (limit : UInt64) : rounds_of s (rounds ++ [(inputs, limit)])
      = rounds_of s rounds
        ++ [((consumed s (rounds ++ [(inputs, limit)])).db.events, limit.toNat)] := by
  induction rounds generalizing s with
  | nil => rw [consumed, List.nil_append, List.flatMap_singleton]; rfl
  | cons round rounds ih =>
      obtain ⟨found, n⟩ := round
      rw [List.cons_append, rounds_of, ih, consumed, consumed, List.flatMap_cons, exec_append]
      rfl

theorem length_rounds_of (s : ControlPlaneStore) (rounds : List (List Input × UInt64)) :
    (rounds_of s rounds).length = rounds.length := by
  induction rounds generalizing s with
  | nil => rfl
  | cons round rounds ih =>
      rw [rounds_of, List.length_cons, List.length_cons, ih]

theorem rounds_of_limits {s : ControlPlaneStore} {rounds : List (List Input × UInt64)}
    (h : ∀ round ∈ rounds, 1 ≤ round.2.toNat) : ∀ round ∈ rounds_of s rounds, 1 ≤ round.2 := by
  induction rounds generalizing s with
  | nil => intro round hround; cases hround
  | cons round rounds ih =>
      intro found hfound
      rcases List.mem_cons.mp hfound with rfl | hfound
      · exact h round List.mem_cons_self
      · exact ih (fun r hr => h r (List.mem_cons_of_mem _ hr)) found hfound

theorem receivesAll {s : ControlPlaneStore} (hs : s.Sound) {after : UInt64}
    (hafter : after.toNat ≤ s.db.events.length) {rounds : List (List Input × UInt64)}
    (hlimits : ∀ round ∈ rounds, 1 ≤ round.2.toNat) : ReceivesAll s after rounds where
  in_order := by
    have hpages := Paging.pages_flatten (c := after.toNat)
      fun round hround => (rounds_of_growing hs rounds round hround).2
    -- What is received is a prefix of what is in the log past the cursor.
    rw [consume_eq_pages hs hafter, ← List.map_flatten, List.length_map, ← List.map_take, ← hpages]
  complete := by
    rintro before inputs limit rfl hshort
    rw [consume_eq_pages hs hafter, rounds_of_append] at hshort ⊢
    rw [← List.map_flatten, Paging.pages_complete]
    · intro round hround
      refine (rounds_of_growing hs (before ++ [(inputs, limit)]) round ?_).2
      rw [rounds_of_append]
      exact List.mem_append_left _ hround
    · rw [List.getLast?_map, Option.any_map] at hshort
      simpa only [Function.comp_def, List.length_map] using hshort
  progress := by
    have hgrowing : ∀ round ∈ rounds_of s rounds, s.db.events <+: round.1 ∧ 1 ≤ round.2 :=
      fun round hround => ⟨(rounds_of_growing hs rounds round hround).1,
        rounds_of_limits hlimits round hround⟩
    have hpages := Paging.pages_progress (c := after.toNat) hgrowing
    rw [length_rounds_of] at hpages
    rw [consume_eq_pages hs hafter, ← List.map_flatten, List.length_map]
    exact hpages

/-- A cursor is honoured exactly when it does not wrap to a negative `i64`, or has nothing
to wrap around to. A consumer never meets one that does: it receives every event once and
in order. -/
theorem event_reads (limits : Limits) (inputs : List Input) :
    (∀ after from_version limit stream_id,
      HonoursCursors (run limits inputs) after from_version limit stream_id ↔
        (after.toNat < 2 ^ 63 ∨ limit = 0 ∨ (run limits inputs).db.events = []) ∧
          (from_version.toNat < 2 ^ 63 ∨ limit = 0 ∨
            (run limits inputs).db.stream_events stream_id = [])) ∧
    (∀ after limit,
      (∀ supply, (run limits inputs).events_after after limit (World.faultFree supply)
        = .ok ((run limits inputs).page after limit)) ∧
      ∀ w answer, (run limits inputs).events_after after limit w = .ok answer →
        answer = (run limits inputs).page after limit) ∧
    ∀ after rounds, after.toNat ≤ (run limits inputs).db.events.length →
      (∀ round ∈ rounds, 1 ≤ round.2.toNat) → ReceivesAll (run limits inputs) after rounds := by
  have hs := sound_run limits inputs
  refine ⟨honoursCursors_iff hs, ?_, ?_⟩
  · intro after limit
    exact ControlPlaneStore.with_reader_answer (events_after_answer after limit)
  · intro after rounds hafter hlimits
    exact receivesAll hs hafter hlimits

/-! One event, and a cursor past every sequence. -/

namespace OneEvent

def batch : CommitBatch :=
  ⟨Id.ofByte 100, 5, none, [], [],
    [.AppendEvent ⟨Id.ofByte 1, "s", "t", 1, 5, none, none, [7], []⟩]⟩

def inputs : List Input := [⟨.commit batch, Env.faultFree []⟩]

end OneEvent

/-- It is read after a cursor of `2 ^ 63`. -/
theorem events_after_wrapped_cursor :
    ((run Limits.new OneEvent.inputs).page 9223372036854775808 1).length = 1 ∧
      ¬ HonoursCursors (run Limits.new OneEvent.inputs) 9223372036854775808 1 1 "s" := by
  refine ⟨by decide, ?_⟩
  rw [honoursCursors_iff (sound_run Limits.new OneEvent.inputs)]
  decide

end MiniSqlite
