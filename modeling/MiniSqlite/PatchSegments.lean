/-
Patches without contradictions.

A `Clear` or a `Replace` defines a fresh baseline, so the mutations of a patch fall into
segments: the writes up to the first reset, and for each reset its entries with the writes
up to the next. `ProjectionPatch.validate` walks the list with the set of keys it has
seen; it accepts exactly the patches that move the version up by one and mention no key
twice in a segment. Such a patch means one thing: its last segment, laid over the entries
when there was no reset and over the empty map when there was.
-/
import MiniSqlite.CommitSemantics
import MiniSqlite.Lib.Overlays

set_option autoImplicit false

namespace MiniSqlite

open Txn Rows Overlays

/-! ## Segments -/

/-- A mutation as a part of its segment: a write to one key, or the reset that opens the
next segment with its entries. -/
inductive MutationPart where
  | write (w : Write Bytes Bytes)
  | reset (entries : List ProjectionEntry)

def ProjectionMutation.part : ProjectionMutation → MutationPart
  | .Put key value => .write ⟨key, some value⟩
  | .Delete key => .write ⟨key, none⟩
  | .Clear => .reset []
  | .Replace entries => .reset entries

/-- `Put` and `Delete`. -/
def ProjectionMutation.Writes (mutation : ProjectionMutation) : Prop :=
  ∃ w, mutation.part = .write w

def ProjectionEntry.write (entry : ProjectionEntry) : Write Bytes Bytes :=
  ⟨entry.key, some entry.value⟩

/-- The entries of a reset and the writes up to the next one. -/
structure Segment where
  entries : List ProjectionEntry
  writes : List (Write Bytes Bytes)

/-- What a segment writes, the entries of its reset first. -/
def Segment.mentions (segment : Segment) : List (Write Bytes Bytes) :=
  segment.entries.map ProjectionEntry.write ++ segment.writes

/-- The mutation list cut at each reset: the writes before the first one, and the segments. -/
def cut : List ProjectionMutation → List (Write Bytes Bytes) × List Segment
  | [] => ([], [])
  | mutation :: mutations =>
    match mutation.part with
    | .write w => (w :: (cut mutations).1, (cut mutations).2)
    | .reset entries => ([], ⟨entries, (cut mutations).1⟩ :: (cut mutations).2)

namespace ProjectionPatch

/-- What each segment of the patch writes. -/
def segments (patch : ProjectionPatch) : List (List (Write Bytes Bytes)) :=
  (cut patch.mutations).1 :: (cut patch.mutations).2.map Segment.mentions

/-- Some mutation of the patch is a reset. -/
def resets (patch : ProjectionPatch) : Bool := !(cut patch.mutations).2.isEmpty

/-- What the last segment writes. -/
def last_segment (patch : ProjectionPatch) : List (Write Bytes Bytes) :=
  match (cut patch.mutations).2.getLast? with
  | some segment => segment.mentions
  | none => (cut patch.mutations).1

theorem last_segment_mem (patch : ProjectionPatch) : patch.last_segment ∈ patch.segments := by
  unfold last_segment segments
  rcases hlast : (cut patch.mutations).2.getLast? with _ | segment
  · exact List.mem_cons_self
  · exact List.mem_cons_of_mem _ (List.mem_map_of_mem (List.mem_of_getLast? hlast))

end ProjectionPatch

theorem cut_write {mutation : ProjectionMutation} {w : Write Bytes Bytes}
    (h : mutation.part = .write w) (mutations : List ProjectionMutation) :
    cut (mutation :: mutations) = (w :: (cut mutations).1, (cut mutations).2) := by
  simp only [cut, h]

theorem cut_reset {mutation : ProjectionMutation} {entries : List ProjectionEntry}
    (h : mutation.part = .reset entries) (mutations : List ProjectionMutation) :
    cut (mutation :: mutations)
      = ([], ⟨entries, (cut mutations).1⟩ :: (cut mutations).2) := by
  simp only [cut, h]

/-! ## What validation accepts -/

/-- A key that was seen is not seen again. -/
theorem not_nodup_of_seen {seen keys : List Bytes} {key : Bytes} (h : key ∈ seen) :
    ¬ (seen.reverse ++ key :: keys).Nodup := fun hnodup =>
  List.disjoint_of_nodup_append hnodup (List.mem_reverse.mpr h) List.mem_cons_self

/-- Checking the keys of some entries against those seen, one after the other. -/
theorem insert_keys (message : String) {entries : List ProjectionEntry} {seen : List Bytes}
    (hseen : seen.Nodup) :
    entries.foldlM (fun seen entry => ProjectionPatch.insert_key message seen
        (ProjectionEntry.key entry)) seen
      = if (seen.reverse ++ entries.map ProjectionEntry.key).Nodup
        then .ok ((entries.map ProjectionEntry.key).reverse ++ seen) else .error ⟨message⟩ := by
  induction entries generalizing seen with
  | nil =>
      have hnodup : (seen.reverse ++ [].map ProjectionEntry.key).Nodup := by simpa using hseen
      rw [if_pos hnodup]
      rfl
  | cons entry entries ih =>
      rw [List.foldlM_cons, ProjectionPatch.insert_key]
      by_cases hkey : entry.key ∈ seen
      · rw [if_pos hkey, List.map_cons, if_neg (not_nodup_of_seen hkey)]
        rfl
      · rw [if_neg hkey]
        refine (ih (List.nodup_cons.mpr ⟨hkey, hseen⟩)).trans ?_
        simp [List.append_assoc]

/-- A write is checked against the keys seen. -/
theorem validate_write (projection : String) {mutation : ProjectionMutation}
    {w : Write Bytes Bytes} (h : mutation.part = .write w) (seen : List Bytes) :
    ProjectionPatch.validate_mutation projection seen mutation = ProjectionPatch.insert_key
      s!"projection {projection} patch has contradictory duplicate key" seen w.key := by
  cases mutation with
  | Put key value =>
      obtain rfl := MutationPart.write.inj h
      rfl
  | Delete key =>
      obtain rfl := MutationPart.write.inj h
      rfl
  | Clear => cases h
  | Replace entries => cases h

/-- A reset forgets the keys seen, and its own are the first of the next segment. -/
theorem validate_reset (projection : String) {mutation : ProjectionMutation}
    {entries : List ProjectionEntry} (h : mutation.part = .reset entries) (seen : List Bytes) :
    ProjectionPatch.validate_mutation projection seen mutation
      = if (entries.map ProjectionEntry.key).Nodup
        then .ok (entries.map ProjectionEntry.key).reverse
        else .error ⟨s!"projection {projection} replace has contradictory duplicate key"⟩ := by
  cases mutation with
  | Put key value => cases h
  | Delete key => cases h
  | Clear =>
      obtain rfl := MutationPart.reset.inj h
      rfl
  | Replace entries =>
      obtain rfl := MutationPart.reset.inj h
      have hloop := @insert_keys
        s!"projection {projection} replace has contradictory duplicate key" entries []
        List.nodup_nil
      rw [List.reverse_nil, List.nil_append, List.append_nil] at hloop
      exact hloop

theorem Segment.mentions_keys (segment : Segment) : segment.mentions.map Write.key
    = segment.entries.map ProjectionEntry.key ++ segment.writes.map Write.key := by
  rw [mentions, List.map_append, List.map_map]
  rfl

/-- **The loop of `validate` accepts the lists no segment of which mentions a key twice**, the
keys seen already being the first of the segment it is in. -/
theorem validate_loop (projection : String) (mutations : List ProjectionMutation)
    {seen : List Bytes} (hseen : seen.Nodup) :
    (∃ seen', mutations.foldlM (ProjectionPatch.validate_mutation projection) seen = .ok seen') ↔
      (seen.reverse ++ (cut mutations).1.map Write.key).Nodup ∧
        ∀ segment ∈ (cut mutations).2, Keyed Write.key segment.mentions := by
  -- The keys seen so far stand before the first segment; a reset forgets them and starts the next
  -- one.
  induction mutations generalizing seen with
  | nil => simp [cut, hseen, pure, Except.pure]
  | cons mutation mutations ih =>
      rw [List.foldlM_cons]
      rcases hpart : mutation.part with w | entries
      · rw [validate_write projection hpart, cut_write hpart, ProjectionPatch.insert_key]
        by_cases hkey : w.key ∈ seen
        · rw [if_pos hkey]
          exact iff_of_false (by rintro ⟨_, h⟩; cases h) fun h => not_nodup_of_seen hkey h.1
        · rw [if_neg hkey]
          refine (ih (List.nodup_cons.mpr ⟨hkey, hseen⟩)).trans ?_
          simp [List.append_assoc]
      · rw [validate_reset projection hpart, cut_reset hpart]
        by_cases hkeys : (entries.map ProjectionEntry.key).Nodup
        · rw [if_pos hkeys]
          refine (ih (List.nodup_reverse.mpr hkeys)).trans ?_
          simp [Keyed, Segment.mentions_keys, hseen]
        · rw [if_neg hkeys]
          refine iff_of_false (by rintro ⟨_, h⟩; cases h) ?_
          rintro ⟨_, h⟩
          have hopening := List.forall_mem_cons.mp h |>.1
          rw [Keyed, Segment.mentions_keys] at hopening
          exact hkeys hopening.of_append_left

namespace ProjectionPatch

/-- No key occurs twice within a segment. -/
def Unambiguous (patch : ProjectionPatch) : Prop :=
  ∀ segment ∈ patch.segments, Keyed Write.key segment

theorem validate_iff (patch : ProjectionPatch) : patch.validate = .ok () ↔
    patch.new_version.toNat = patch.expected_version.toNat + 1 ∧ patch.Unambiguous := by
  have hloop := validate_loop patch.projection patch.mutations List.nodup_nil
  have hsegments : patch.Unambiguous ↔
      ([].reverse ++ (cut patch.mutations).1.map Write.key).Nodup ∧
        ∀ segment ∈ (cut patch.mutations).2, Keyed Write.key segment.mentions := by
    simp [Unambiguous, segments, Keyed]
  rw [hsegments, ← hloop]
  constructor
  · intro h
    refine ⟨validate_version h, ?_⟩
    unfold validate at h
    split_ifs at h
    rcases hrun : patch.mutations.foldlM (validate_mutation patch.projection) [] with e | seen
    · rw [hrun] at h
      cases h
    · exact ⟨seen, rfl⟩
  -- The source compares with wrapping addition and asks for a version that is not zero, which
  -- together say that the addition did not wrap.
  · rintro ⟨hversion, seen, hrun⟩
    have hnew : patch.new_version = patch.expected_version + 1 := by
      rw [← UInt64.toNat_inj, UInt64.toNat_add, hversion]
      have := patch.new_version.toNat_lt
      exact (Nat.mod_eq_of_lt (by show patch.expected_version.toNat + 1 < 2 ^ 64; omega)).symm
    have hnonzero : patch.new_version ≠ 0 := by
      intro hzero
      rw [hzero] at hversion
      simp at hversion
    rw [validate, if_neg (not_or.mpr ⟨not_not_intro hnew, hnonzero⟩), hrun]
    rfl

end ProjectionPatch

/-! ## What an accepted patch means -/

theorem denote_write {mutation : ProjectionMutation} {w : Write Bytes Bytes}
    (h : mutation.part = .write w) (entries : Entries) :
    mutation.denote entries = overlay [w] entries := by
  have hone : ∀ k, overlay [w] entries k = if k = w.key then w.value else entries k := by
    intro k
    by_cases hk : k = w.key
    · rw [if_pos hk, hk, overlay_written (by simp [Keyed]) List.mem_cons_self]
    · rw [if_neg hk, overlay_unwritten (by simpa using hk)]
  funext k
  rw [hone]
  cases mutation with
  | Put key value =>
      obtain rfl := MutationPart.write.inj h
      rfl
  | Delete key =>
      obtain rfl := MutationPart.write.inj h
      rfl
  | Clear => cases h
  | Replace entries => cases h

theorem denote_reset {mutation : ProjectionMutation} {given : List ProjectionEntry}
    (h : mutation.part = .reset given) (entries : Entries) :
    mutation.denote entries = overlay (given.map ProjectionEntry.write) fun _ => none := by
  cases mutation with
  | Put key value => cases h
  | Delete key => cases h
  | Clear =>
      obtain rfl := MutationPart.reset.inj h
      rfl
  | Replace given =>
      obtain rfl := MutationPart.reset.inj h
      funext k
      have himage : lookup Write.key k (given.map ProjectionEntry.write)
          = (lookup ProjectionEntry.key k given).map ProjectionEntry.write :=
        lookup_image fun _ => rfl
      simp only [ProjectionMutation.denote, overlay, himage]
      rcases lookup ProjectionEntry.key k given with _ | entry <;> rfl

/-- **The last segment has the last word**: mutations no segment of which mentions a key twice
are the writes of the last one, over the entries or, past a reset, over the empty map. -/
theorem denote_foldl (mutations : List ProjectionMutation) (entries : Entries)
    (hfirst : Keyed Write.key (cut mutations).1)
    (hrest : ∀ segment ∈ (cut mutations).2, Keyed Write.key segment.mentions) :
    mutations.foldl ProjectionMutation.denote entries
      = match (cut mutations).2.getLast? with
        | some segment => overlay segment.mentions fun _ => none
        | none => overlay (cut mutations).1 entries := by
  -- The induction is on the mutations, the entries they find generalized: a reset starts over from
  -- other entries than those before it.
  induction mutations generalizing entries with
  | nil => rfl
  | cons mutation mutations ih =>
      rw [List.foldl_cons]
      rcases hpart : mutation.part with w | given
      · rw [cut_write hpart] at hfirst hrest ⊢
        obtain ⟨hnew, hfirst⟩ := List.nodup_cons.mp hfirst
        rw [ih _ hfirst hrest, denote_write hpart]
        rcases hlast : (cut mutations).2.getLast? with _ | segment
        · -- Still before the first reset: the write goes below the writes that follow.
          refine overlay_overlay fun w' hw' => ?_
          intro hmem
          rw [List.map_cons, List.map_nil, List.mem_singleton] at hmem
          exact hnew (hmem ▸ List.mem_map_of_mem hw')
        · rfl
      · rw [cut_reset hpart] at hrest ⊢
        obtain ⟨hopening, hrest⟩ := List.forall_mem_cons.mp hrest
        have hkeys := hopening
        rw [Keyed, Segment.mentions, List.map_append] at hkeys
        rw [ih _ hkeys.of_append_right hrest, denote_reset hpart, List.getLast?_cons]
        rcases hlast : (cut mutations).2.getLast? with _ | segment
        · -- The reset just read is the last one: its entries go below the writes that follow.
          refine overlay_overlay fun w hw hmem => ?_
          exact List.disjoint_of_nodup_append hkeys hmem (List.mem_map_of_mem hw)
        · rfl

namespace ProjectionPatch

/-- What the patch makes of the entries of its projection. -/
theorem denote_eq {patch : ProjectionPatch} (h : patch.Unambiguous) (entries : Entries) :
    patch.denote entries
      = overlay patch.last_segment (if patch.resets then fun _ => none else entries) := by
  obtain ⟨hfirst, hrest⟩ := List.forall_mem_cons.mp h
  have hfold := denote_foldl patch.mutations entries hfirst fun segment hsegment =>
    hrest _ (List.mem_map_of_mem hsegment)
  rw [denote, hfold, last_segment, resets]
  rcases hcut : (cut patch.mutations).2 with _ | ⟨segment, segments⟩
  · rfl
  · rw [List.getLast?_cons]
    rfl

/-- The patch with other mutations. -/
def with_mutations (mutations : List ProjectionMutation) (patch : ProjectionPatch) :
    ProjectionPatch :=
  { patch with mutations := mutations }

end ProjectionPatch

/-! ## The order within a segment -/

/-- The same mutations with the writes of each segment in another order. -/
inductive Rearranged : List ProjectionMutation → List ProjectionMutation → Prop
  | nil : Rearranged [] []
  | reset {mutation : ProjectionMutation} {before after : List ProjectionMutation}
      (h : ¬ mutation.Writes) (hrest : Rearranged before after) :
      Rearranged (mutation :: before) (mutation :: after)
  | writes {block block' before after : List ProjectionMutation}
      (h : ∀ mutation ∈ block, mutation.Writes) (hperm : block.Perm block')
      (hrest : Rearranged before after) : Rearranged (block ++ before) (block' ++ after)

/-- A segment with its writes in another order. -/
def Segment.Rearranged (segment segment' : Segment) : Prop :=
  segment.entries = segment'.entries ∧ segment.writes.Perm segment'.writes

theorem Segment.Rearranged.mentions {segment segment' : Segment}
    (h : segment.Rearranged segment') : segment.mentions.Perm segment'.mentions := by
  rw [Segment.mentions, Segment.mentions, h.1]
  exact h.2.append_left _

def ProjectionMutation.write (mutation : ProjectionMutation) : Option (Write Bytes Bytes) :=
  match mutation.part with
  | .write w => some w
  | .reset _ => none

theorem cut_writes {block : List ProjectionMutation} (h : ∀ mutation ∈ block, mutation.Writes)
    (mutations : List ProjectionMutation) : cut (block ++ mutations)
      = (block.filterMap ProjectionMutation.write ++ (cut mutations).1, (cut mutations).2) := by
  induction block with
  | nil => rfl
  | cons mutation block ih =>
      obtain ⟨⟨w, hw⟩, h⟩ := List.forall_mem_cons.mp h
      have hwrite : mutation.write = some w := by
        rw [ProjectionMutation.write, hw]
      rw [List.cons_append, cut_write hw, ih h, List.filterMap_cons_some hwrite]
      rfl

/-- Rearranging keeps the resets and permutes the writes of each segment. -/
theorem Rearranged.cut {before after : List ProjectionMutation} (h : Rearranged before after) :
    (MiniSqlite.cut before).1.Perm (MiniSqlite.cut after).1 ∧
      List.Forall₂ Segment.Rearranged (MiniSqlite.cut before).2 (MiniSqlite.cut after).2 := by
  induction h with
  | nil => exact ⟨.refl _, .nil⟩
  | @reset mutation before after h _ ih =>
      rcases hpart : mutation.part with w | given
      · exact absurd ⟨w, hpart⟩ h
      · rw [cut_reset hpart, cut_reset hpart]
        exact ⟨.refl _, .cons ⟨rfl, ih.1⟩ ih.2⟩
  | writes h hperm _ ih =>
      have h' := fun mutation hmem => h mutation (hperm.mem_iff.mpr hmem)
      rw [cut_writes h, cut_writes h']
      exact ⟨(hperm.filterMap _).append ih.1, ih.2⟩

/-- Rearranged patches have the same segments up to order. -/
theorem Rearranged.segments {patch : ProjectionPatch} {mutations : List ProjectionMutation}
    (h : Rearranged patch.mutations mutations) :
    List.Forall₂ List.Perm patch.segments (patch.with_mutations mutations).segments := by
  refine .cons h.cut.1 ?_
  rw [List.forall₂_map_left_iff, List.forall₂_map_right_iff]
  exact h.cut.2.imp fun _ _ => Segment.Rearranged.mentions

theorem unambiguous_of_perm {segments segments' : List (List (Write Bytes Bytes))}
    (h : List.Forall₂ List.Perm segments segments') :
    (∀ segment ∈ segments, Keyed Write.key segment) ↔
      ∀ segment ∈ segments', Keyed Write.key segment := by
  induction h with
  | nil => simp
  | cons hperm _ ih =>
      rw [List.forall_mem_cons, List.forall_mem_cons, ih]
      exact and_congr_left fun _ => (hperm.map Write.key).nodup_iff

/-- Rearranging changes nothing that validation looks at. -/
theorem Rearranged.validate {patch : ProjectionPatch} {mutations : List ProjectionMutation}
    (h : Rearranged patch.mutations mutations) :
    (patch.with_mutations mutations).validate = .ok () ↔ patch.validate = .ok () := by
  rw [ProjectionPatch.validate_iff, ProjectionPatch.validate_iff]
  exact and_congr_right fun _ => (unambiguous_of_perm h.segments).symm

theorem getLast?_forall₂ {α : Type} {R : α → α → Prop} {l l' : List α} (h : List.Forall₂ R l l') :
    Option.Rel R l.getLast? l'.getLast? := by
  induction h with
  | nil => exact .none
  | @cons a b l l' hab _ ih =>
      rw [List.getLast?_cons, List.getLast?_cons]
      rcases hl : l.getLast? with _ | x <;> rcases hl' : l'.getLast? with _ | y <;>
        rw [hl, hl'] at ih
      · exact .some hab
      · cases ih
      · cases ih
      · cases ih with
        | some h => exact .some h

/-- Nor the last segment, up to order. -/
theorem Rearranged.last_segment {patch : ProjectionPatch} {mutations : List ProjectionMutation}
    (h : Rearranged patch.mutations mutations) :
    patch.last_segment.Perm (patch.with_mutations mutations).last_segment ∧
      (patch.with_mutations mutations).resets = patch.resets := by
  obtain ⟨hfirst, hrest⟩ := h.cut
  have hlast := getLast?_forall₂ hrest
  rw [ProjectionPatch.last_segment, ProjectionPatch.last_segment, ProjectionPatch.resets,
    ProjectionPatch.resets, ProjectionPatch.with_mutations]
  refine ⟨?_, ?_⟩
  · rcases hbefore : (MiniSqlite.cut patch.mutations).2.getLast? with _ | segment <;>
      rcases hafter : (MiniSqlite.cut mutations).2.getLast? with _ | segment' <;>
      rw [hbefore, hafter] at hlast
    · exact hfirst
    · cases hlast
    · cases hlast
    · cases hlast with
      | some hsegment => exact hsegment.mentions
  · generalize (MiniSqlite.cut patch.mutations).2 = before at hrest
    generalize (MiniSqlite.cut mutations).2 = after at hrest
    cases hrest <;> rfl

/-! ## Patches are unambiguous -/

/-- **What a patch settles.** After it, each key has what the one write of the last segment that
mentions it gives; a key the last segment does not mention is absent past a reset, and otherwise
as before; and so are the entries of other projections. -/
structure ProjectionPatch.Settles (patch : ProjectionPatch) (db db' : Db) : Prop where
  once : (patch.last_segment.map Write.key).Nodup
  mentioned : ∀ w ∈ patch.last_segment,
    entry_map patch.projection db'.projection_entries w.key = w.value
  others : ∀ key ∉ patch.last_segment.map Write.key,
    entry_map patch.projection db'.projection_entries key
      = if patch.resets then none else entry_map patch.projection db.projection_entries key
  elsewhere : ∀ p, p ≠ patch.projection →
    entry_map p db'.projection_entries = entry_map p db.projection_entries

theorem Db.with_patch_entries (patch : ProjectionPatch) (db : Db) (p : String) :
    entry_map p (db.with_patch patch).projection_entries
      = if p = patch.projection then patch.denote (entry_map p db.projection_entries)
        else entry_map p db.projection_entries :=
  effect_map_foldl patch.mutations

theorem ProjectionPatch.settles {patch : ProjectionPatch} (h : patch.Unambiguous) (db : Db) :
    patch.Settles db (db.with_patch patch) := by
  have honce : Keyed Write.key patch.last_segment := h _ patch.last_segment_mem
  have hentries : entry_map patch.projection (db.with_patch patch).projection_entries
      = overlay patch.last_segment (if patch.resets then fun _ => none
          else entry_map patch.projection db.projection_entries) := by
    rw [Db.with_patch_entries, if_pos rfl, denote_eq h]
  constructor
  case once => exact honce
  case mentioned =>
    intro w hw
    rw [hentries, overlay_written honce hw]
  case others =>
    intro key hkey
    rw [hentries, overlay_unwritten hkey]
    split_ifs <;> rfl
  case elsewhere =>
    intro p hp
    rw [Db.with_patch_entries, if_neg hp]

/-- Rearranged patches leave the same entries in every projection. -/
theorem Rearranged.entries {patch : ProjectionPatch} {mutations : List ProjectionMutation}
    (h : Rearranged patch.mutations mutations) (hvalid : patch.validate = .ok ()) (db : Db)
    (p : String) :
    entry_map p (db.with_patch (patch.with_mutations mutations)).projection_entries
      = entry_map p (db.with_patch patch).projection_entries := by
  have hunambiguous := (patch.validate_iff.mp hvalid).2
  have hunambiguous' := (ProjectionPatch.validate_iff _).mp (h.validate.mpr hvalid) |>.2
  obtain ⟨hlast, hresets⟩ := h.last_segment
  rw [Db.with_patch_entries, Db.with_patch_entries]
  refine if_congr Iff.rfl ?_ rfl
  rw [ProjectionPatch.denote_eq hunambiguous', ProjectionPatch.denote_eq hunambiguous, hresets,
    overlay_perm (hunambiguous _ patch.last_segment_mem) hlast]

/-- **Validation makes patches unambiguous.** A patch is accepted iff it moves the version up by
one and mentions no key twice in a segment. Applied to any database, an accepted patch is refused
for its version only, and otherwise settles every key; and neither acceptance nor the outcome
depends on the order of the writes within a segment. -/
theorem patch_unambiguous (patch : ProjectionPatch) :
    (patch.validate = .ok () ↔
      patch.new_version.toNat = patch.expected_version.toNat + 1 ∧
        ∀ segment ∈ patch.segments, (segment.map Write.key).Nodup) ∧
    (patch.validate = .ok () → ∀ db : Db, ∀ supply,
      (apply_projection_patch patch).eval db supply
          = (if db.projection_version patch.projection = patch.expected_version
            then .ok ((), db.with_patch patch, supply)
            else .error (.Conflict (.ProjectionVersion patch.projection patch.expected_version
              (db.projection_version patch.projection)))) ∧
        patch.Settles db (db.with_patch patch)) ∧
    ∀ mutations, Rearranged patch.mutations mutations →
      ((patch.with_mutations mutations).validate = .ok () ↔ patch.validate = .ok ()) ∧
      (patch.validate = .ok () → ∀ db : Db, ∀ p,
        entry_map p (db.with_patch (patch.with_mutations mutations)).projection_entries
          = entry_map p (db.with_patch patch).projection_entries) := by
  refine ⟨patch.validate_iff, ?_, ?_⟩
  · intro hvalid db supply
    refine ⟨?_, ProjectionPatch.settles (patch.validate_iff.mp hvalid).2 db⟩
    rw [apply_projection_patch_eval hvalid, Db.apply_patch]
    -- Given validity, the version is all that is left to refuse.
    by_cases hversion : db.projection_version patch.projection = patch.expected_version
    · rw [if_pos hversion, if_neg (not_not_intro hversion)]
      rfl
    · rw [if_neg hversion, if_pos hversion]
      rfl
  · intro mutations h
    exact ⟨h.validate, fun hvalid db p => h.entries hvalid db p⟩

/-- The two writes of a patch, in either order, on an empty database. -/
theorem patch_unambiguous_one_patch :
    let swapped := OnePatch.patch.with_mutations [.Put [255, 1] [8], .Put [1] [7]]
    swapped.validate = .ok () ∧
      (apply_projection_patch OnePatch.patch).eval Db.empty []
        = .ok ((), Db.empty.with_patch OnePatch.patch, []) ∧
      ∀ p, entry_map p (Db.empty.with_patch swapped).projection_entries
        = entry_map p (Db.empty.with_patch OnePatch.patch).projection_entries := by
  intro swapped
  obtain ⟨_, hsettles, hrearranged⟩ := patch_unambiguous OnePatch.patch
  have hvalid : OnePatch.patch.validate = .ok () := rfl
  have hswapped : Rearranged OnePatch.patch.mutations [.Put [255, 1] [8], .Put [1] [7]] :=
    @Rearranged.writes [.Put [1] [7], .Put [255, 1] [8]] _ [] []
      (by simp [ProjectionMutation.Writes, ProjectionMutation.part]) (List.Perm.swap _ _ _) .nil
  obtain ⟨haccepted, hentries⟩ := hrearranged _ hswapped
  exact ⟨haccepted.mpr hvalid, (hsettles hvalid Db.empty []).1, hentries hvalid Db.empty⟩

end MiniSqlite
