/-
The other reads of projections (`store/projections.rs`): a version, an entry, how many there are,
and which projections there are.

They all show one thing, the map that the committed patches of a projection make of the empty one.
A projection is listed from its first patch on, and its version tells how many there were.
-/
import MiniSqlite.Journal
import MiniSqlite.ProjectionScans

set_option autoImplicit false

namespace MiniSqlite

open Txn Rows Labelled Runs Numbering

/-! ## The program -/

/-- `SELECT value FROM projection_entries WHERE projection = ?1 AND key = ?2`. -/
def Db.projection_get (projection : String) (key : Bytes) (db : Db) : Option Bytes :=
  (lookup Db.entry_key (projection, key) db.projection_entries).map ProjectionEntryRow.value

/-- `SELECT projection, version FROM projection_meta ORDER BY projection`. -/
def Db.projections_list (db : Db) : List (String × UInt64) :=
  (orderBy ProjectionMetaRow.projection db.projection_meta).map fun r => (r.projection, r.version)

/-- `SELECT COUNT(*) FROM projection_entries WHERE projection = ?1`. -/
def Db.projection_entry_count (projection : String) (db : Db) : ℕ :=
  (db.projection_entries.filter fun r => r.projection = projection).length

/-- The current version of a projection (0 when it does not exist). -/
def projection_version (projection : String) : Sql Error UInt64 :=
  version_query projection

/-- Get one projection entry by key. -/
def projection_get (projection : String) (key : Bytes) : Sql Error (Option Bytes) :=
  (query (Db.projection_get projection key)).orStorage

/-- List all projections and their versions. -/
def projections_list : Sql Error (List (String × UInt64)) :=
  (query Db.projections_list).orStorage

/-- The number of entries in a projection (0 when it does not exist). -/
def projection_entry_count (projection : String) : Sql Error UInt64 := do
  let count ← (query (Db.projection_entry_count projection)).orStorage
  return UInt64.ofNat count

namespace ControlPlaneStore

def projection_version (projection : String) (s : ControlPlaneStore) (w : World Id) :
    Except Error UInt64 :=
  s.with_reader (MiniSqlite.projection_version projection) w

def projection_get (projection : String) (key : Bytes) (s : ControlPlaneStore) (w : World Id) :
    Except Error (Option Bytes) :=
  s.with_reader (MiniSqlite.projection_get projection key) w

def projections_list (s : ControlPlaneStore) (w : World Id) :
    Except Error (List (String × UInt64)) :=
  s.with_reader MiniSqlite.projections_list w

def projection_entry_count (projection : String) (s : ControlPlaneStore) (w : World Id) :
    Except Error UInt64 :=
  s.with_reader (MiniSqlite.projection_entry_count projection) w

end ControlPlaneStore

/-! ## A projection has been patched -/

/-- No projection is at version zero: it gets its row with its first patch. -/
def Db.Patched (db : Db) : Prop := ∀ r ∈ db.projection_meta, r.version.toNat ≠ 0

section Steps

variable {db db' : Db}

theorem Applies.patched {batch : CommitBatch} {x y : Db × StreamVersions} {op : Operation}
    (h : Applies batch x op y) (hx : x.1.Patched) : y.1.Patched := by
  cases h with
  | event _ _ _ => exact hx
  | @patch _ _ patch hvalid _ =>
      have hversion : patch.new_version.toNat ≠ 0 := by
        rw [ProjectionPatch.validate_version hvalid]
        omega
      exact forall_upsert hx hversion fun _ _ _ => hversion
  | job _ _ => exact hx

theorem Applied.patched {batch : CommitBatch} (h : Applied batch db db') (hdb : db.Patched) :
    db'.Patched := by
  obtain ⟨_, _, hoperations⟩ := h
  exact hoperations.invariant (I := fun x => x.1.Patched) (fun _ _ _ hi hs => hs.patched hi) hdb

theorem Persisted.patched {i : Input} {as : List JobAction} (h : Persisted db i as db')
    (hdb : db.Patched) : db'.Patched := by
  cases h with
  | commit happlied => exact happlied.patched hdb
  | claim _ hclaimed =>
      obtain ⟨t, _, rfl⟩ := hclaimed.steps
      exact hdb
  | extend _ hdb' =>
      rw [hdb']
      exact hdb

end Steps

theorem patched_run (limits : Limits) (inputs : List Input) : (run limits inputs).db.Patched := by
  have hstep : ∀ (s : ControlPlaneStore) (i : Input), s.Valid ∧ s.db.Patched →
      (step s i).2.Valid ∧ (step s i).2.db.Patched := by
    rintro s i ⟨hvalid, hpatched⟩
    refine ⟨hvalid.step i, ?_⟩
    rcases step_persisted hvalid i with hsame | ⟨as, hpersisted⟩
    · rw [hsame]
      exact hpatched
    · exact hpersisted.patched hpatched
  have hempty : Db.empty.Patched := by simp [Db.Patched, Db.empty]
  exact (exec_invariant hstep ⟨valid_empty limits, hempty⟩ inputs).2

/-- The rows of `projection_meta` are the projections that are past version zero. -/
theorem mem_projections_list {db : Db}
    (hkeyed : Keyed ProjectionMetaRow.projection db.projection_meta) (hpatched : db.Patched)
    {projection : String} {version : UInt64} :
    (projection, version) ∈ db.projections_list ↔
      version.toNat ≠ 0 ∧ db.projection_version projection = version := by
  rw [Db.projections_list, List.mem_map, Db.projection_version]
  constructor
  · rintro ⟨r, hr, heq⟩
    obtain ⟨rfl, rfl⟩ := Prod.mk.inj heq
    rw [mem_orderBy] at hr
    rw [hkeyed.lookup_eq hr]
    exact ⟨hpatched r hr, rfl⟩
  · rintro ⟨hpos, hversion⟩
    rcases hrow : lookup ProjectionMetaRow.projection projection db.projection_meta with _ | r
    · rw [hrow] at hversion
      exact absurd (congrArg UInt64.toNat hversion.symm) hpos
    · rw [hrow] at hversion
      refine ⟨r, mem_orderBy.mpr (lookup_mem hrow), ?_⟩
      rw [lookup_key hrow]
      exact Prod.ext rfl hversion

/-! ## One map, many reads -/

attribute [local instance] byte_order

/-- **The reads of projections show what the patches applied to each make of the empty map.** -/
structure ReadsProjections (s : ControlPlaneStore) (applied : String → List ProjectionPatch) :
    Prop where
  version : ∀ projection, ∃ version, Answers (s.projection_version projection) version
    ∧ version.toNat = (applied projection).length
  get : ∀ projection key, Answers (s.projection_get projection key)
    ((applied projection).foldl ProjectionPatch.denote (fun _ => none) key)
  /-- Each patched projection is listed once, in the order of the names. -/
  list : ∃ listed, Answers s.projections_list listed
    ∧ (listed.map Prod.fst).Pairwise (· < ·)
    ∧ ∀ projection version, (projection, version) ∈ listed ↔
        applied projection ≠ [] ∧ version.toNat = (applied projection).length
  count : ∀ projection, ∃ keys : Finset Bytes,
    Answers (s.projection_entry_count projection) (UInt64.ofNat keys.card)
      ∧ ∀ key, key ∈ keys ↔
        ((applied projection).foldl ProjectionPatch.denote (fun _ => none) key).isSome
  /-- A scan with a limit that is no smaller than the count tells the same. -/
  scan : ∀ projection (b : ScanBounds) (limit : UInt64),
    s.db.projection_entry_count projection ≤ limit.toNat →
      ∃ entries, Answers (fun w => b.fetch projection none limit s w) entries
        ∧ ∀ key value, ⟨key, value⟩ ∈ entries ↔ b.Inside key
          ∧ (applied projection).foldl ProjectionPatch.denote (fun _ => none) key = some value

theorem readsProjections {s : ControlPlaneStore} {ops : List Operation} (h : Folded ops s.db)
    (hkeyed : Keyed ProjectionMetaRow.projection s.db.projection_meta) (hpatched : s.db.Patched) :
    ReadsProjections s fun projection => patches_of projection ops where
  version := fun projection => by
    refine ⟨s.db.projection_version projection, ?_, h.version projection⟩
    exact ControlPlaneStore.answers (f := MiniSqlite.projection_version projection)
      (b := s.db.projection_version projection) (fun _ => rfl) rfl
  get := fun projection key => by
    refine ControlPlaneStore.answers (f := MiniSqlite.projection_get projection key)
      (b := s.db.projection_get projection key) (fun _ => rfl) ?_
    rw [← h.entries projection]
    rfl
  list := by
    refine ⟨s.db.projections_list, ControlPlaneStore.answers (f := MiniSqlite.projections_list)
      (fun _ => rfl) rfl, ?_, fun projection version => ?_⟩
    · have hstrict := orderBy_strict hkeyed
      rw [Db.projections_list, List.map_map]
      exact hstrict
    · have hcount := h.version projection
      rw [mem_projections_list hkeyed hpatched, ← List.length_pos_iff, ← hcount]
      constructor
      · rintro ⟨hpos, rfl⟩
        exact ⟨Nat.pos_of_ne_zero hpos, rfl⟩
      · rintro ⟨hpos, hversion⟩
        exact ⟨by omega, UInt64.toNat_inj.mp hversion.symm⟩
  -- Keys are distinct, so the number of rows is that of the keys that are present.
  count := fun projection => by
    have hnodup := entries_of_keyed h.keyed projection
    refine ⟨((s.db.entries_of projection).map ProjectionEntry.key).toFinset, ?_, fun key => ?_⟩
    · refine ControlPlaneStore.answers (f := MiniSqlite.projection_entry_count projection)
        (b := UInt64.ofNat (s.db.projection_entry_count projection)) (fun _ => rfl) ?_
      rw [List.toFinset_card_of_nodup hnodup, List.length_map, Db.entries_of, List.length_map,
        Db.projection_entry_count]
    · rw [List.mem_toFinset, List.mem_map, ← h.entries projection, Option.isSome_iff_exists]
      constructor
      · rintro ⟨e, he, rfl⟩
        exact ⟨e.value, (mem_entries_of h.keyed).mp he⟩
      · rintro ⟨value, hvalue⟩
        exact ⟨⟨key, value⟩, (mem_entries_of h.keyed).mpr hvalue, rfl⟩
  -- A limit that no projection's entries exceed is none.
  scan := fun projection b limit hlimit => by
    refine ⟨b.page projection none limit s, b.fetch_answer projection none limit s,
      fun key value => ?_⟩
    have hroom : (s.db.entries_inside projection b).length ≤ limit.toNat := by
      refine le_trans (List.length_filter_le _ _) ?_
      rwa [Db.entries_of, List.length_map]
    rw [b.page_all projection none s hroom, Paging.mem_rows_past, low_after_lt, Db.entries_inside,
      List.mem_filter, mem_entries_of h.keyed, ← h.entries projection]
    simp [and_comm]

/-- **Projection reads show the history.** After every run, in whatever way its calls ended, each
read of projections answers with what the committed patches say, or fails: the version of a
projection counts them, its entries are what they make of the empty map, taken one by one, counted
or scanned, and the projections listed are those that have been patched. -/
theorem projections_of_history (limits : Limits) (inputs : List Input) :
    ReadsProjections (run limits inputs) fun projection =>
      committed_patches projection (history limits inputs) := by
  have hfolded : Folded (committed (history limits inputs)) (run limits inputs).db :=
    folded_trace (valid_empty limits) .empty inputs
  exact readsProjections hfolded (distinct_run limits inputs).projection_meta
    (patched_run limits inputs)

end MiniSqlite
