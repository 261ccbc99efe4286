/-
The projection scans (`store/projections.rs`) and a reader that pages with them.

Keys are opaque byte strings in lexicographic order. A prefix scan never relies on text
collation: it is compiled to `key >= prefix AND key < upper_bound`. The statement is put
together from the bounds that are given, each with the number of the parameter that has
just been pushed for it. A limit is bound `as i64`, as in the event reads.
-/
import MiniSqlite.EventReads
import MiniSqlite.ProjectionFold
import MiniSqlite.Lib.Prefixes

set_option autoImplicit false

namespace MiniSqlite

open Txn Rows Labelled Runs Numbering

/-! ## The order of keys -/

/-- Bytes in their order; strings of bytes compare as `memcmp` does, and the shorter first. -/
local instance byte_order : LinearOrder UInt8 where
  le_refl _ := UInt8.le_refl _
  le_trans _ _ _ := UInt8.le_trans
  le_antisymm _ _ := UInt8.le_antisymm
  le_total := UInt8.le_total
  lt_iff_le_not_ge a b := by
    rw [UInt8.lt_iff_toNat_lt, UInt8.le_iff_toNat_le, UInt8.le_iff_toNat_le]
    omega
  toDecidableLE := inferInstance

/-- `while let Some(last) = bound.last_mut()`, on the bytes from the last on. -/
def drop_and_increment : Bytes → Option Bytes
  | [] => none
  | last :: rest => if last = 0xFF then drop_and_increment rest else some ((last + 1) :: rest)

/-- The smallest byte string strictly greater than every key starting with `p`: the prefix
with trailing 0xFF bytes dropped and the last remaining byte incremented. -/
def prefix_upper_bound (p : Bytes) : Option Bytes :=
  (drop_and_increment p.reverse).map List.reverse

/-- Below 0xFF there is a next byte. -/
theorem covBy_succ {x : UInt8} (h : x ≠ 0xFF) : x ⋖ x + 1 := by
  have hx : x.toNat ≠ 255 := fun heq => h (UInt8.toNat_inj.mp heq)
  have hlt := x.toNat_lt
  have hsucc : (x + 1).toNat = x.toNat + 1 := by
    rw [UInt8.toNat_add]
    exact Nat.mod_eq_of_lt (by show x.toNat + 1 < 2 ^ 8; omega)
  constructor
  · rw [UInt8.lt_iff_toNat_lt, hsucc]
    exact Nat.lt_succ_self _
  · intro z hxz hzy
    rw [UInt8.lt_iff_toNat_lt] at hxz hzy
    omega

theorem le_top (z : UInt8) : z ≤ 0xFF := by
  rw [UInt8.le_iff_toNat_le]
  have := z.toNat_lt
  show z.toNat ≤ 255
  omega

/-- **The bound ends the prefix.** -/
theorem prefix_upper_bound_ends (p : Bytes) : Prefixes.Ends p (prefix_upper_bound p) := by
  have hloop : ∀ reversed : Bytes,
      Prefixes.Ends reversed.reverse ((drop_and_increment reversed).map List.reverse) := by
    intro reversed
    induction reversed with
    | nil => exact Prefixes.ends_nil
    | cons last rest ih =>
        rw [List.reverse_cons, drop_and_increment]
        split_ifs with htop
        · rw [htop]
          exact ih.append_top le_top
        · rw [Option.map_some, List.reverse_cons]
          exact Prefixes.ends_append (covBy_succ htop)
  have hends := hloop p.reverse
  rwa [List.reverse_reverse] at hends

/-! ## The statement -/

/-- `key >= ?n`, `key < ?n` and `key > ?n`. -/
inductive Comparison where
  | at_least
  | below
  | above
deriving DecidableEq

def Comparison.holds (key bound : Bytes) : Comparison → Bool
  | .at_least => bound ≤ key
  | .below => key < bound
  | .above => bound < key

/-- A bound parameter. -/
inductive ToSql where
  | text (s : String)
  | blob (b : Bytes)
  | integer (i : Int64)
deriving DecidableEq

/-- The statement while it is put together: the parameters bound so far, and the
comparisons of its WHERE clause, each with the number of its parameter. -/
structure ScanSql where
  args : List ToSql
  comparisons : List (Comparison × ℕ)

namespace ScanSql

/-- `SELECT key, value FROM projection_entries WHERE projection = ?1`. -/
def of_projection (projection : String) : ScanSql := ⟨[.text projection], []⟩

/-- `if let Some(bound) = &bound { args.push(bound); sql.push_str(…) }`. -/
def push (c : Comparison) (bound : Option Bytes) (sql : ScanSql) : ScanSql :=
  match bound with
  | none => sql
  | some bound =>
    let args := sql.args ++ [.blob bound]
    ⟨args, sql.comparisons ++ [(c, args.length)]⟩

/-- The parameter `?n`. -/
def arg (sql : ScanSql) (n : ℕ) : Option ToSql := sql.args[n - 1]?

/-- The WHERE clause. -/
def selects (sql : ScanSql) (r : ProjectionEntryRow) : Bool :=
  (match sql.arg 1 with
    | some (.text projection) => r.projection = projection
    | _ => false) &&
  sql.comparisons.all fun (c, n) =>
    match sql.arg n with
    | some (.blob bound) => c.holds r.key bound
    | _ => false

end ScanSql

/-- The statement of a scan, without its LIMIT. -/
def scan_sql (projection : String) (start stop after : Option Bytes) : ScanSql :=
  (((ScanSql.of_projection projection).push .at_least start).push .below stop).push .above after

/-- The rows a scan selects. -/
def Db.scan (projection : String) (start stop after : Option Bytes) (limit : UInt64) (db : Db) :
    List ProjectionEntryRow :=
  let sql := scan_sql projection start stop after
  let sql : ScanSql := { sql with args := sql.args ++ [.integer limit.toInt64] }
  let rows := orderBy ProjectionEntryRow.key (db.projection_entries.filter sql.selects)
  match sql.arg sql.args.length with
  | some (.integer limit) => limited limit rows
  | _ => []

def ProjectionEntryRow.entry (r : ProjectionEntryRow) : ProjectionEntry := ⟨r.key, r.value⟩

def scan (projection : String) (start stop after : Option Bytes) (limit : UInt64) :
    Sql StorageError (List ProjectionEntry) := do
  let rows ← query (Db.scan projection start stop after limit)
  return rows.map ProjectionEntryRow.entry

/-- Range scan: entries with `start <= key < end` (either bound optional) and, when `after`
is given, strictly greater than `after`, in key order. -/
def projection_scan_range (projection : String) (start stop after : Option Bytes)
    (limit : UInt64) : Sql StorageError (List ProjectionEntry) :=
  scan projection start stop after limit

/-- Paginated prefix scan: entries with keys starting with the prefix and, when `after` is
given, strictly greater than `after`, in key order. -/
def projection_scan_prefix_page (projection : String) (p : Bytes) (after : Option Bytes)
    (limit : UInt64) : Sql StorageError (List ProjectionEntry) :=
  scan projection (some p) (prefix_upper_bound p) after limit

/-- Scan entries with keys starting with the prefix, in key order. -/
def projection_scan_prefix (projection : String) (p : Bytes) (limit : UInt64) :
    Sql StorageError (List ProjectionEntry) :=
  projection_scan_prefix_page projection p none limit

namespace ControlPlaneStore

def projection_scan_prefix (projection : String) (p : Bytes) (limit : UInt64)
    (s : ControlPlaneStore) (w : World Id) : Except Error (List ProjectionEntry) :=
  s.with_reader (MiniSqlite.projection_scan_prefix projection p limit).orStorage w

def projection_scan_prefix_page (projection : String) (p : Bytes) (after : Option Bytes)
    (limit : UInt64) (s : ControlPlaneStore) (w : World Id) :
    Except Error (List ProjectionEntry) :=
  s.with_reader (MiniSqlite.projection_scan_prefix_page projection p after limit).orStorage w

def projection_scan_range (projection : String) (start stop after : Option Bytes)
    (limit : UInt64) (s : ControlPlaneStore) (w : World Id) :
    Except Error (List ProjectionEntry) :=
  s.with_reader (MiniSqlite.projection_scan_range projection start stop after limit).orStorage w

end ControlPlaneStore

/-! ## What a scan selects -/

/-- The key is between the bounds that are given. -/
def Between (start stop after : Option Bytes) (key : Bytes) : Prop :=
  (∀ k ∈ start, k ≤ key) ∧ (∀ k ∈ stop, key < k) ∧ ∀ k ∈ after, k < key

instance (start stop after : Option Bytes) (key : Bytes) :
    Decidable (Between start stop after key) :=
  inferInstanceAs (Decidable (_ ∧ _ ∧ _))

/-- Each comparison reads the parameter that was pushed for it. -/
theorem scan_sql_selects (projection : String) (start stop after : Option Bytes) (limit : Int64)
    (r : ProjectionEntryRow) :
    ScanSql.selects { scan_sql projection start stop after with
        args := (scan_sql projection start stop after).args ++ [.integer limit] } r
      = decide (r.projection = projection ∧ Between start stop after r.key) := by
  rw [Bool.eq_iff_iff, decide_eq_true_eq]
  cases start <;> cases stop <;> cases after <;>
    simp [ScanSql.selects, scan_sql, ScanSql.push, ScanSql.of_projection, ScanSql.arg,
      Comparison.holds, Between]

/-- The entries of a projection. -/
def Db.entries_of (projection : String) (db : Db) : List ProjectionEntry :=
  (db.projection_entries.filter fun r => r.projection = projection).map ProjectionEntryRow.entry

/-- **What a scan reads**: the entries between its bounds, in key order, up to its limit. -/
theorem Db.scan_eq (projection : String) (start stop after : Option Bytes) (limit : UInt64)
    (db : Db) : (db.scan projection start stop after limit).map ProjectionEntryRow.entry
      = limited limit.toInt64 (orderBy ProjectionEntry.key
          ((db.entries_of projection).filter fun e => Between start stop after e.key)) := by
  -- First that the limit is the last parameter, behind the bounds that are there.
  have hrows : db.scan projection start stop after limit = limited limit.toInt64
      (orderBy ProjectionEntryRow.key (db.projection_entries.filter fun r =>
        r.projection = projection ∧ Between start stop after r.key)) := by
    have hlimit : ∀ sql : ScanSql, ScanSql.arg { sql with
        args := sql.args ++ [.integer limit.toInt64] }
          (sql.args ++ [ToSql.integer limit.toInt64]).length
          = some (.integer limit.toInt64) := by
      simp [ScanSql.arg]
    unfold Db.scan
    simp only
    rw [hlimit, funext (scan_sql_selects projection start stop after limit.toInt64)]
  have hlimited : ∀ (n : Int64) (rows : List ProjectionEntryRow),
      (limited n rows).map ProjectionEntryRow.entry
        = limited n (rows.map ProjectionEntryRow.entry) := by
    intro n rows
    unfold limited
    split_ifs
    · rfl
    · exact List.map_take
  have hentries : (db.projection_entries.filter fun r =>
        r.projection = projection ∧ Between start stop after r.key).map ProjectionEntryRow.entry
      = (db.entries_of projection).filter fun e => Between start stop after e.key := by
    rw [entries_of, List.filter_map, List.filter_filter]
    congr 1
    refine List.filter_congr fun r _ => ?_
    rw [Bool.decide_and, Bool.and_comm]
    rfl
  rw [hrows, hlimited, ← hentries]
  exact congrArg _ (map_orderBy ProjectionEntry.key ProjectionEntryRow.entry _)

/-- The bounds of a prefix scan are those of the keys that start with the prefix. -/
theorem between_prefixed (p : Bytes) (after : Option Bytes) (key : Bytes) :
    Between (some p) (prefix_upper_bound p) after key ↔ p <+: key ∧ ∀ k ∈ after, k < key := by
  rw [← prefix_upper_bound_ends p key]
  simp [Between, and_assoc]

/-! ## Prefix scans -/

/-- The entries of a projection whose keys start with `p`, in key order. -/
def Db.entries_with_prefix (projection : String) (p : Bytes) (db : Db) : List ProjectionEntry :=
  orderBy ProjectionEntry.key ((db.entries_of projection).filter fun e => p <+: e.key)

/-- A limit that wraps is above what SQLite can number. -/
theorem limited_cast_of {α : Type} {rows : List α} {limit : UInt64}
    (h : limit.toNat < 2 ^ 63 ∨ rows.length ≤ Db.MAX_ROWID) :
    limited limit.toInt64 rows = rows.take limit.toNat := by
  rcases h with h | h
  · rw [limited, toInt_cast_of_lt h, if_neg (by omega), Int.toNat_natCast]
  · refine limited_cast limit ?_
    rw [Db.MAX_ROWID] at h
    omega

theorem scan_answer (s : ControlPlaneStore) (projection : String) (start stop after : Option Bytes)
    (limit : UInt64) (supply : List Id) :
    (scan projection start stop after limit).orStorage.eval s.db supply
      = .ok ((s.db.scan projection start stop after limit).map ProjectionEntryRow.entry,
          s.db, supply) := rfl

/-- **Prefix scans are exact.** A key is at least the prefix and below its upper bound iff it
starts with the prefix; the bound is the least string past all that do, and when there is
none, they have no bound; and a prefix scan of a reachable store answers with the first
`limit` of the entries whose keys start with the prefix, in key order. A limit that does not
fit `i64` reads a table whole, and no table has more rows than rowids. -/
theorem prefix_scan_exact :
    (∀ p key : Bytes, (p ≤ key ∧ ∀ u ∈ prefix_upper_bound p, key < u) ↔ p <+: key) ∧
    (∀ p u, prefix_upper_bound p = some u → IsLeast {v | ∀ key, p <+: key → key < v} u) ∧
    (∀ p, prefix_upper_bound p = none → ∀ v, ∃ key, p <+: key ∧ v ≤ key) ∧
    ∀ limits inputs projection p limit,
      limit.toNat < 2 ^ 63 ∨ (run limits inputs).db.projection_entries.length ≤ Db.MAX_ROWID →
      (∀ supply, ControlPlaneStore.projection_scan_prefix projection p limit (run limits inputs)
          (World.faultFree supply)
        = .ok (((run limits inputs).db.entries_with_prefix projection p).take limit.toNat)) ∧
      ∀ w answer,
        ControlPlaneStore.projection_scan_prefix projection p limit (run limits inputs) w
            = .ok answer →
          answer = ((run limits inputs).db.entries_with_prefix projection p).take limit.toNat := by
  refine ⟨prefix_upper_bound_ends, ?_, ?_, ?_⟩
  · intro p u hu
    have hends := prefix_upper_bound_ends p
    rw [hu] at hends
    exact hends.isLeast
  · intro p hnone
    have hends := prefix_upper_bound_ends p
    rw [hnone] at hends
    exact hends.unbounded
  · intro limits inputs projection p limit hroom
    have hrows : (((run limits inputs).db.scan projection (some p) (prefix_upper_bound p) none
          limit).map ProjectionEntryRow.entry)
        = ((run limits inputs).db.entries_with_prefix projection p).take limit.toNat := by
      -- Between the prefix and its bound are the keys with the prefix, and no others.
      have hprefix : ((run limits inputs).db.entries_of projection).filter (fun e =>
            Between (some p) (prefix_upper_bound p) none e.key)
          = ((run limits inputs).db.entries_of projection).filter fun e => p <+: e.key := by
        refine List.filter_congr fun e _ => decide_eq_decide.mpr ?_
        rw [between_prefixed]
        simp
      rw [Db.scan_eq, hprefix]
      refine limited_cast_of (hroom.imp_right fun hle => le_trans ?_ hle)
      rw [(orderBy_perm _ _).length_eq]
      refine (List.length_filter_le _ _).trans ?_
      rw [Db.entries_of, List.length_map]
      exact List.length_filter_le _ _
    rw [← hrows]
    exact ControlPlaneStore.with_reader_answer
      (scan_answer (run limits inputs) projection (some p) (prefix_upper_bound p) none limit)

/-- A prefix of which every string is less than some key that starts with it: it has no bound. -/
theorem prefix_scan_exact_unbounded :
    prefix_upper_bound [255] = none ∧
      ControlPlaneStore.projection_scan_prefix "p" [255] 10 (run Limits.new OnePatch.inputs)
        (World.faultFree []) = .ok [⟨[255, 1], [8]⟩] := by
  obtain ⟨_, _, _, hscans⟩ := prefix_scan_exact
  obtain ⟨hscan, _⟩ := hscans Limits.new OnePatch.inputs "p" [255] 10 (Or.inl (by decide))
  exact ⟨by decide, (hscan []).trans (by decide)⟩

/-! ## A reader that pages -/

/-- What a reader asks for: the keys with a prefix, or the keys of a range. -/
inductive ScanBounds where
  | prefixed (p : Bytes)
  | of_range (start stop : Option Bytes)
deriving DecidableEq

namespace ScanBounds

/-- A key inside the bounds. -/
def Inside : ScanBounds → Bytes → Prop
  | .prefixed p, key => p <+: key
  | .of_range start stop, key => (∀ k ∈ start, k ≤ key) ∧ ∀ k ∈ stop, key < k

instance : (b : ScanBounds) → (key : Bytes) → Decidable (b.Inside key)
  | .prefixed p, key => inferInstanceAs (Decidable (p <+: key))
  | .of_range _ _, _ => inferInstanceAs (Decidable (_ ∧ _))

/-- One fetch. -/
def fetch (projection : String) (after : Option Bytes) (limit : UInt64) (s : ControlPlaneStore)
    (w : World Id) : ScanBounds → Except Error (List ProjectionEntry)
  | .prefixed p => s.projection_scan_prefix_page projection p after limit w
  | .of_range start stop => s.projection_scan_range projection start stop after limit w

/-- What a fetch answers when nothing fails. -/
def page (projection : String) (after : Option Bytes) (limit : UInt64) (s : ControlPlaneStore) :
    ScanBounds → List ProjectionEntry
  | .prefixed p => (s.db.scan projection (some p) (prefix_upper_bound p) after limit).map
      ProjectionEntryRow.entry
  | .of_range start stop => (s.db.scan projection start stop after limit).map
      ProjectionEntryRow.entry

theorem fetch_answer (b : ScanBounds) (projection : String) (after : Option Bytes) (limit : UInt64)
    (s : ControlPlaneStore) :
    (∀ supply, b.fetch projection after limit s (World.faultFree supply)
        = .ok (b.page projection after limit s)) ∧
      ∀ w answer, b.fetch projection after limit s w = .ok answer →
        answer = b.page projection after limit s := by
  cases b with
  | prefixed p =>
      exact ControlPlaneStore.with_reader_answer
        (scan_answer s projection (some p) (prefix_upper_bound p) after limit)
  | of_range start stop =>
      exact ControlPlaneStore.with_reader_answer (scan_answer s projection start stop after limit)

/-- The last key of a page, or where it started. -/
def next_after (after : Option Bytes) (page : List ProjectionEntry) : Option Bytes :=
  (page.getLast?.map ProjectionEntry.key).or after

/-- The fetches of a reader: before each, some calls run, then it asks for a page past the
last key it has seen; it stops at the first short page. -/
def fetches (b : ScanBounds) (projection : String) (limit : UInt64) (s : ControlPlaneStore)
    (after : Option Bytes) (rounds : List (List Input)) :
    List (ControlPlaneStore × List ProjectionEntry) :=
  Paging.fetches (exec step) (fun after s => b.page projection after limit s) next_after
    limit.toNat s after rounds

end ScanBounds

/-! ## What the reader gets -/

/-- Keys with a least element below them, where a reader without `after` starts. -/
def low_key (e : ProjectionEntry) : WithBot Bytes := (e.key : WithBot Bytes)

def low_after : Option Bytes → WithBot Bytes
  | none => ⊥
  | some key => (key : WithBot Bytes)

theorem low_after_lt {after : Option Bytes} {e : ProjectionEntry} :
    low_after after < low_key e ↔ ∀ k ∈ after, k < e.key := by
  cases after <;> simp [low_after, low_key]

/-- The entries a reader with these bounds may see. -/
def Db.entries_inside (projection : String) (b : ScanBounds) (db : Db) : List ProjectionEntry :=
  (db.entries_of projection).filter fun e => b.Inside e.key

/-- A page is read by key. -/
theorem ScanBounds.page_eq (b : ScanBounds) (projection : String) (after : Option Bytes)
    (limit : UInt64) (s : ControlPlaneStore) : b.page projection after limit s
      = limited limit.toInt64 (Paging.rows_past low_key (s.db.entries_inside projection b)
          (low_after after)) := by
  have hscan : ∀ start stop : Option Bytes,
      (∀ key, Between start stop after key ↔ b.Inside key ∧ ∀ k ∈ after, k < key) →
      (s.db.scan projection start stop after limit).map ProjectionEntryRow.entry
        = limited limit.toInt64 (Paging.rows_past low_key (s.db.entries_inside projection b)
            (low_after after)) := by
    intro start stop hbounds
    have hrows : Paging.rows_past low_key (s.db.entries_inside projection b) (low_after after)
        = orderBy ProjectionEntry.key
          ((s.db.entries_of projection).filter fun e => Between start stop after e.key) := by
      refine (orderBy_congr (fun _ _ => WithBot.coe_le_coe) _).trans ?_
      rw [Db.entries_inside, List.filter_filter]
      refine congrArg _ (List.filter_congr fun e _ => ?_)
      rw [← Bool.decide_and]
      refine decide_eq_decide.mpr ?_
      rw [hbounds, low_after_lt, and_comm]
    rw [Db.scan_eq, hrows]
  cases b with
  | prefixed p => exact hscan _ _ (between_prefixed p after)
  | of_range start stop =>
      refine hscan start stop fun key => ?_
      rw [Between, Inside, and_assoc]

theorem ScanBounds.isPage (b : ScanBounds) (projection : String) (after : Option Bytes)
    (limit : UInt64) (s : ControlPlaneStore) :
    Paging.IsPage low_key limit.toNat (s.db.entries_inside projection b) (low_after after)
      (b.page projection after limit s) := by
  rw [ScanBounds.page_eq]
  unfold limited
  split_ifs with hnegative
  · exact ⟨List.prefix_refl _, fun _ => rfl⟩
  · have hlimit : limit.toNat < 2 ^ 63 := by
      by_contra hlarge
      exact hnegative (toInt_cast_neg (Nat.le_of_not_lt hlarge))
    rw [toInt_cast_of_lt hlimit, Int.toNat_natCast]
    exact Paging.isPage_page _ _ _

theorem low_after_next (after : Option Bytes) (page : List ProjectionEntry) :
    low_after (ScanBounds.next_after after page)
      = Paging.cursor low_key (low_after after) page := by
  rw [ScanBounds.next_after, Paging.cursor]
  cases page.getLast? <;> rfl

/-- The primary key of the table. -/
theorem entries_of_keyed {db : Db} (hkeyed : Keyed Db.entry_key db.projection_entries)
    (projection : String) : Keyed ProjectionEntry.key (db.entries_of projection) := by
  have hmine := hkeyed.filter fun r => decide (r.projection = projection)
  rw [Keyed, Db.entries_of, List.map_map]
  refine nodup_map_of_nodup_map hmine ?_
  intro r hr r' hr' heq
  have hp := of_decide_eq_true (List.mem_filter.mp hr).2
  have hp' := of_decide_eq_true (List.mem_filter.mp hr').2
  exact Prod.ext (hp.trans hp'.symm) heq

theorem entries_inside_keyed {db : Db} (hkeyed : Keyed Db.entry_key db.projection_entries)
    (projection : String) (b : ScanBounds) : Keyed low_key (db.entries_inside projection b) := by
  refine Keyed.filter ?_ _
  exact nodup_map_of_nodup_map (entries_of_keyed hkeyed projection)
    fun _ _ _ _ heq => WithBot.coe_injective heq

/-- The entries of a projection are its map. -/
theorem mem_entries_of {db : Db} (hkeyed : Keyed Db.entry_key db.projection_entries)
    {projection : String} {e : ProjectionEntry} : e ∈ db.entries_of projection ↔
      entry_map projection db.projection_entries e.key = some e.value := by
  rw [Db.entries_of, List.mem_map, entry_map, Option.map_eq_some_iff]
  constructor
  · rintro ⟨r, hr, rfl⟩
    obtain ⟨hr, hp⟩ := List.mem_filter.mp hr
    refine ⟨r, ?_, rfl⟩
    have hkey : Db.entry_key r = (projection, r.key) := by
      rw [Db.entry_key, of_decide_eq_true hp]
    exact hkey ▸ hkeyed.lookup_eq hr
  · rintro ⟨r, hr, hvalue⟩
    have hentry : Db.entry_key r = (projection, e.key) := lookup_key hr
    obtain ⟨hp, hkey⟩ := Prod.mk.inj hentry
    refine ⟨r, List.mem_filter.mpr ⟨lookup_mem hr, decide_eq_true hp⟩, ?_⟩
    rw [ProjectionEntryRow.entry, hkey, hvalue]

theorem entries_of_perm {db db' : Db} (hkeyed : Keyed Db.entry_key db.projection_entries)
    (hkeyed' : Keyed Db.entry_key db'.projection_entries) {projection : String}
    (h : entry_map projection db.projection_entries = entry_map projection db'.projection_entries) :
    (db.entries_of projection).Perm (db'.entries_of projection) := by
  refine (List.perm_ext_iff_of_nodup (entries_of_keyed hkeyed projection).of_map
    (entries_of_keyed hkeyed' projection).of_map).mpr fun e => ?_
  rw [mem_entries_of hkeyed, mem_entries_of hkeyed', h]

/-- Calls that commit no patch of a projection leave its map alone. -/
theorem entry_map_of_no_patches (limits : Limits) (inputs more : List Input) {projection : String}
    (h : committed_patches projection (trace step (run limits inputs) more) = []) :
    entry_map projection (exec step (run limits inputs) more).db.projection_entries
      = entry_map projection (run limits inputs).db.projection_entries := by
  have hs := valid_run limits inputs
  have hbefore : Folded (committed (history limits inputs)) (run limits inputs).db :=
    folded_trace (valid_empty limits) .empty inputs
  have hafter := folded_trace hs hbefore more
  have hnone : patches_of projection (committed (trace step (run limits inputs) more)) = [] := h
  rw [hafter.entries, hbefore.entries, patches_of, patches_append, of_append]
  rw [patches_of] at hnone
  rw [hnone, List.append_nil]
  rfl

/-- The fetches came to an end: the last page was short. -/
def came_to_end {α : Type} (limit : UInt64) (fetches : List (ControlPlaneStore × List α)) : Bool :=
  fetches.getLast?.any fun f => f.2.length < limit.toNat

/-- What a reader may rely on. -/
structure Paginates (b : ScanBounds) (projection : String) (limit : UInt64)
    (s : ControlPlaneStore) (after : Option Bytes) (rounds : List (List Input))
    (fetches : List (ControlPlaneStore × List ProjectionEntry)) : Prop where
  increasing : ((fetches.flatMap Prod.snd).map ProjectionEntry.key).Pairwise (· < ·)
  inside : ∀ e ∈ fetches.flatMap Prod.snd, b.Inside e.key ∧ ∀ k ∈ after, k < e.key
  stored : ∀ f ∈ fetches, ∀ e ∈ f.2, e ∈ f.1.db.entries_of projection
  complete : came_to_end limit fetches = true → ∀ key, b.Inside key → (∀ k ∈ after, k < key) →
    (∀ f ∈ fetches, ∃ e ∈ f.1.db.entries_of projection, e.key = key) →
      ((fetches.flatMap Prod.snd).map ProjectionEntry.key).count key = 1
  unpaged : came_to_end limit fetches = true → ∀ first rest, rounds = first :: rest →
    committed_patches projection (trace step (exec step s first) rest.flatten) = [] →
      ∀ enough : UInt64,
        ((exec step s first).db.entries_inside projection b).length ≤ enough.toNat →
        fetches.flatMap Prod.snd = b.page projection after enough (exec step s first)

theorem foldl_exec (s : ControlPlaneStore) (rounds : List (List Input)) :
    rounds.foldl (exec step) s = exec step s rounds.flatten := by
  induction rounds generalizing s with
  | nil => rfl
  | cons inputs rounds ih => rw [List.foldl_cons, ih, List.flatten_cons, exec_append]

/-- An unlimited page is all that is past its start. -/
theorem ScanBounds.page_all (b : ScanBounds) (projection : String) (after : Option Bytes)
    (s : ControlPlaneStore) {enough : UInt64}
    (h : (s.db.entries_inside projection b).length ≤ enough.toNat) :
    b.page projection after enough s
      = Paging.rows_past low_key (s.db.entries_inside projection b) (low_after after) := by
  have hlength : (Paging.rows_past low_key (s.db.entries_inside projection b)
      (low_after after)).length ≤ enough.toNat := by
    rw [Paging.rows_past, (orderBy_perm _ _).length_eq]
    exact (List.length_filter_le _ _).trans h
  rw [ScanBounds.page_eq, limited]
  split_ifs with hnegative
  · rfl
  · have hsmall : enough.toNat < 2 ^ 63 := by
      by_contra hlarge
      exact hnegative (toInt_cast_neg (Nat.le_of_not_lt hlarge))
    rw [toInt_cast_of_lt hsmall, Int.toNat_natCast, List.take_of_length_le hlength]

theorem keyed_run (limits : Limits) (inputs : List Input) :
    Keyed Db.entry_key (run limits inputs).db.projection_entries :=
  (folded_trace (valid_empty limits) .empty inputs).keyed

section Fetches

variable {limits : Limits} {inputs : List Input} {b : ScanBounds} {projection : String}
  {limit : UInt64} {after : Option Bytes} {rounds : List (List Input)}

variable (limits inputs b projection limit after rounds) in
/-- The fetches read by key. -/
theorem reads_scan_fetches : Paging.Reads low_key limit.toNat (low_after after)
    ((b.fetches projection limit (run limits inputs) after rounds).map fun f =>
      f.1.db.entries_inside projection b)
    ((b.fetches projection limit (run limits inputs) after rounds).map Prod.snd) :=
  Paging.reads_fetches (fun _ => True) (fun s : ControlPlaneStore =>
      s.db.entries_inside projection b) low_after (fun _ _ _ => trivial)
    (fun s c _ => b.isPage projection c limit s) (fun _ c _ => low_after_next c _) trivial
    after rounds

/-- What a fetch finds, and when. -/
theorem mem_scan_fetches {f : ControlPlaneStore × List ProjectionEntry}
    (hf : f ∈ b.fetches projection limit (run limits inputs) after rounds) :
    (∃ c, f.2 = b.page projection c limit f.1) ∧ ∃ first done left,
      rounds = first :: done ++ left
        ∧ f.1 = exec step (exec step (run limits inputs) first) done.flatten := by
  obtain ⟨hpage, first, done, left, hrounds, hf⟩ := Paging.mem_fetches hf
  rw [foldl_exec, List.flatten_cons, exec_append] at hf
  exact ⟨hpage, first, done, left, hrounds, hf⟩

theorem keyed_scan_fetches {f : ControlPlaneStore × List ProjectionEntry}
    (hf : f ∈ b.fetches projection limit (run limits inputs) after rounds) :
    Keyed Db.entry_key f.1.db.projection_entries := by
  obtain ⟨-, first, done, left, -, hf⟩ := mem_scan_fetches hf
  rw [hf, run, ← exec_append, ← exec_append]
  exact keyed_run limits _

end Fetches

theorem paginates (limits : Limits) (inputs : List Input) (b : ScanBounds) (projection : String)
    (limit : UInt64) (after : Option Bytes) (rounds : List (List Input)) :
    Paginates b projection limit (run limits inputs) after rounds
      (b.fetches projection limit (run limits inputs) after rounds) := by
  have hreads := reads_scan_fetches limits inputs b projection limit after rounds
  have htables : ∀ rows ∈ (b.fetches projection limit (run limits inputs) after rounds).map
      (fun f => f.1.db.entries_inside projection b), Keyed low_key rows := by
    intro rows hrows
    obtain ⟨f, hf, rfl⟩ := List.mem_map.mp hrows
    exact entries_inside_keyed (keyed_scan_fetches hf) projection b
  have hend : came_to_end limit (b.fetches projection limit (run limits inputs) after rounds)
      = ((b.fetches projection limit (run limits inputs) after rounds).map Prod.snd).getLast?.any
        fun page => page.length < limit.toNat := by
    rw [came_to_end, List.getLast?_map, Option.any_map]
  obtain ⟨hincreasing, hpast⟩ := hreads.increasing htables
  rw [← List.flatMap_def] at hincreasing hpast
  have hkeys : ((b.fetches projection limit (run limits inputs) after rounds).flatMap Prod.snd).map
      ProjectionEntry.key |>.Pairwise (· < ·) := by
    rw [List.pairwise_map] at hincreasing ⊢
    exact hincreasing.imp fun hlt => WithBot.coe_lt_coe.mp hlt
  constructor
  case increasing => exact hkeys
  case inside =>
    intro e he
    refine ⟨?_, low_after_lt.mp (hpast e he)⟩
    rw [List.flatMap_def] at he
    obtain ⟨rows, hrows, he⟩ := hreads.mem he
    obtain ⟨f, _, rfl⟩ := List.mem_map.mp hrows
    exact of_decide_eq_true (List.mem_filter.mp he).2
  case stored =>
    intro f hf e he
    obtain ⟨⟨c, hpage⟩, -⟩ := mem_scan_fetches hf
    rw [hpage] at he
    exact (List.mem_filter.mp ((b.isPage projection c limit f.1).mem he).1).1
  case complete =>
    intro hlast key hinside hafter hpresent
    have hlow : low_after after < low_key ⟨key, []⟩ := low_after_lt.mpr hafter
    obtain ⟨e, he, hkey⟩ := hreads.complete htables (hend.symm.trans hlast) hlow (by
      intro rows hrows
      obtain ⟨f, hf, rfl⟩ := List.mem_map.mp hrows
      obtain ⟨e, he, rfl⟩ := hpresent f hf
      exact ⟨e, List.mem_filter.mpr ⟨he, decide_eq_true hinside⟩, rfl⟩)
    rw [← List.flatMap_def] at he
    have hmem := List.mem_map_of_mem (f := ProjectionEntry.key) he
    rw [show e.key = key from WithBot.coe_injective hkey] at hmem
    exact List.count_eq_one_of_mem (hkeys.imp fun hlt => ne_of_lt hlt) hmem
  case unpaged =>
    rintro hlast first rest rfl hnone enough hroom
    rw [b.page_all projection after _ hroom, List.flatMap_def]
    have hstart : exec step (run limits inputs) first = run limits (inputs ++ first) :=
      (exec_append _ _ _).symm
    refine hreads.unchanged ?_ ?_ (hend.symm.trans hlast)
    · rw [hstart]
      exact entries_inside_keyed (keyed_run limits _) projection b
    · intro rows hrows
      obtain ⟨f, hf, rfl⟩ := List.mem_map.mp hrows
      obtain ⟨-, first', done, left, hrounds, hstore⟩ := mem_scan_fetches hf
      rw [List.cons_append] at hrounds
      obtain ⟨rfl, rfl⟩ := List.cons.inj hrounds
      refine (entries_of_perm (keyed_scan_fetches hf) (hstart ▸ keyed_run limits _) ?_).filter _
      -- None of the calls up to this fetch committed a patch either.
      rw [List.flatten_append, trace_append, committed_patches, committed, List.flatMap_append,
        patches_of, patches_append, of_append, List.append_eq_nil_iff] at hnone
      rw [hstore, hstart]
      refine entry_map_of_no_patches limits (inputs ++ first) done.flatten ?_
      rw [← hstart]
      exact hnone.1

/-- **Projection pagination.** A reader of any reachable store that pages through a prefix or a
range, with calls of any kind between its fetches, gets keys in increasing order, only keys
inside its bounds, and only entries that are there when it fetches them; once a page comes back
short it has got every key that was there at all its fetches exactly once; and if no patch of the
projection was committed in between, what it got is the unpaged scan. -/
theorem projection_pagination (limits : Limits) (inputs : List Input) (projection : String)
    (b : ScanBounds) (limit : UInt64) (after : Option Bytes) :
    (∀ s : ControlPlaneStore, (∀ supply, b.fetch projection after limit s (World.faultFree supply)
        = .ok (b.page projection after limit s)) ∧
      ∀ w answer, b.fetch projection after limit s w = .ok answer →
        answer = b.page projection after limit s) ∧
    ∀ rounds, Paginates b projection limit (run limits inputs) after rounds
      (b.fetches projection limit (run limits inputs) after rounds) :=
  ⟨b.fetch_answer projection after limit, paginates limits inputs b projection limit after⟩

/-- A reader that fetches single entries gets the keys of a patch, each once. -/
theorem projection_pagination_one_patch :
    let b : ScanBounds := .prefixed []
    let fetches := b.fetches "p" 1 (run Limits.new OnePatch.inputs) none [[], [], []]
    fetches.flatMap Prod.snd = b.page "p" none 10 (run Limits.new OnePatch.inputs) ∧
      ((fetches.flatMap Prod.snd).map ProjectionEntry.key).count [255, 1] = 1 := by
  intro b fetches
  obtain ⟨_, hpages⟩ := projection_pagination Limits.new OnePatch.inputs "p" b 1 none
  have hend : came_to_end 1 fetches = true := by decide
  have hpaginates := hpages [[], [], []]
  refine ⟨hpaginates.unpaged hend [] [[], []] rfl rfl 10 (by decide), ?_⟩
  refine hpaginates.complete hend [255, 1] (by decide) (by decide) ?_
  decide

end MiniSqlite
