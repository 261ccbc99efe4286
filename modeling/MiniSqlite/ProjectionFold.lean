/-
Projections are the fold of their patches.

A projection is, for its readers, a map from keys to values and a version.
`ProjectionMutation.denote` says what each mutation means for the map, and the
tables of any reachable state are what the committed patches of the projection
make of the empty map, one version each.
-/
import MiniSqlite.History
import MiniSqlite.Lib.Numbering

set_option autoImplicit false

namespace MiniSqlite

open Txn Rows Labelled Runs Numbering

/-! ## What patches mean -/

/-- The entries of a projection, as a map. -/
abbrev Entries := Bytes → Option Bytes

/-- What a mutation makes of the map: `Put` overwrites, `Delete` removes, `Clear`
empties, `Replace` sets exactly the given entries. -/
def ProjectionMutation.denote (entries : Entries) : ProjectionMutation → Entries
  | .Put key value => fun k => if k = key then some value else entries k
  | .Delete key => fun k => if k = key then none else entries k
  | .Clear => fun _ => none
  | .Replace given => fun k => (lookup ProjectionEntry.key k given).map ProjectionEntry.value

def ProjectionPatch.denote (entries : Entries) (patch : ProjectionPatch) : Entries :=
  patch.mutations.foldl ProjectionMutation.denote entries

def Operation.patch : Operation → Option MiniSqlite.ProjectionPatch
  | .ProjectionPatch patch => some patch
  | _ => none

theorem Operation.patch_of_job {op : Operation} (h : op.concerns_no_job = false) :
    op.patch = none := by
  cases op <;> first | rfl | cases h

/-- The patches among some operations, in their order. -/
def patches (ops : List Operation) : List ProjectionPatch := ops.filterMap Operation.patch

/-- The patches of one projection. -/
def patches_of (projection : String) (ops : List Operation) : List ProjectionPatch :=
  of ProjectionPatch.projection projection (patches ops)

/-- The rows of a projection as a map. -/
def entry_map (projection : String) (rows : List ProjectionEntryRow) : Entries := fun key =>
  (lookup Db.entry_key (projection, key) rows).map ProjectionEntryRow.value

/-! ## What validation rules out -/

/-- A patch that passes validation moves the version up by one. -/
theorem ProjectionPatch.validate_version {patch : ProjectionPatch} (h : patch.validate = .ok ()) :
    patch.new_version.toNat = patch.expected_version.toNat + 1 := by
  unfold validate at h
  split_ifs at h with hversion
  obtain ⟨hnew, hzero⟩ := not_or.mp hversion
  have hnew := not_not.mp hnew
  have hlt := patch.expected_version.toNat_lt
  -- The only sum that wraps around is zero.
  have hroom : patch.expected_version.toNat + 1 ≠ 2 ^ 64 := by
    intro hwrap
    apply hzero
    rw [hnew, ← UInt64.toNat_inj, UInt64.toNat_add]
    show (patch.expected_version.toNat + 1) % 2 ^ 64 = 0
    rw [hwrap, Nat.mod_self]
  rw [hnew, UInt64.toNat_add]
  exact Nat.mod_eq_of_lt (by
    show patch.expected_version.toNat + 1 < 2 ^ 64
    omega)

/-- Replacement entries carry distinct keys. -/
def ProjectionMutation.Distinct : ProjectionMutation → Prop
  | .Replace entries => (entries.map ProjectionEntry.key).Nodup
  | _ => True

theorem insert_key_loop {message : String} {entries : List ProjectionEntry}
    {seen seen' : List Bytes}
    (h : entries.foldlM (fun seen entry => ProjectionPatch.insert_key message seen
      (ProjectionEntry.key entry)) seen = .ok seen') :
    (entries.map ProjectionEntry.key).Nodup ∧ ∀ entry ∈ entries, entry.key ∉ seen := by
  induction entries generalizing seen with
  | nil => exact ⟨List.nodup_nil, by simp⟩
  | cons entry entries ih =>
      rw [List.foldlM_cons] at h
      unfold ProjectionPatch.insert_key at h
      split_ifs at h with hseen
      · cases h
      · obtain ⟨hnodup, hfresh⟩ := ih h
        constructor
        · refine List.nodup_cons.mpr ⟨?_, hnodup⟩
          rw [List.mem_map]
          rintro ⟨entry', hentry', hkey⟩
          exact hfresh entry' hentry' (hkey ▸ List.mem_cons_self)
        · intro entry' hentry'
          rcases List.mem_cons.mp hentry' with rfl | hentry'
          · exact hseen
          · exact fun hmem => hfresh entry' hentry' (List.mem_cons_of_mem _ hmem)

/-- The mutations of a patch that passes validation replace by distinct keys. -/
theorem ProjectionPatch.validate_distinct {patch : ProjectionPatch} (h : patch.validate = .ok ()) :
    ∀ mutation ∈ patch.mutations, mutation.Distinct := by
  -- The loop checks the entries of each `Replace` against each other, whatever it has seen.
  have hloop : ∀ (mutations : List ProjectionMutation) (seen seen' : List Bytes),
      mutations.foldlM (validate_mutation patch.projection) seen = .ok seen' →
        ∀ mutation ∈ mutations, mutation.Distinct := by
    intro mutations
    induction mutations with
    | nil => simp
    | cons mutation mutations ih =>
        intro seen seen' hrun
        rw [List.foldlM_cons] at hrun
        rcases hhead : validate_mutation patch.projection seen mutation with e | seen₁
        · rw [hhead] at hrun
          cases hrun
        · rw [hhead] at hrun
          refine List.forall_mem_cons.mpr ⟨?_, ih seen₁ seen' hrun⟩
          cases mutation with
          | Put key value => trivial
          | Delete key => trivial
          | Clear => trivial
          | Replace entries => exact (insert_key_loop hhead).1
  unfold validate at h
  split_ifs at h with hversion
  rcases hrun : patch.mutations.foldlM (validate_mutation patch.projection) [] with e | seen
  · rw [hrun] at h
    cases h
  · exact hloop _ _ _ hrun

/-! ## Rows and maps -/

section Effect

variable {projection p : String} {rows : List ProjectionEntryRow}

/-- Deleting the rows of a projection empties its map and no other. -/
theorem entry_map_clear (key : Bytes) :
    entry_map p (rows.filter fun r => r.projection ≠ projection) key =
      if p = projection then none else entry_map p rows key := by
  have hlookup : lookup Db.entry_key (p, key) (rows.filter fun r => r.projection ≠ projection)
      = if decide (p ≠ projection) then lookup Db.entry_key (p, key) rows else none :=
    lookup_filter fun k : String × Bytes => decide (k.1 ≠ projection)
  rw [entry_map, hlookup]
  by_cases hp : p = projection
  · simp [hp]
  · rw [if_neg hp, if_pos (decide_eq_true hp)]
    rfl

theorem entry_map_replace (entries : List ProjectionEntry) (key : Bytes) :
    entry_map p (entries.map fun entry => ⟨projection, entry.key, entry.value⟩) key =
      if p = projection then (lookup ProjectionEntry.key key entries).map ProjectionEntry.value
      else none := by
  rw [entry_map, lookup, List.find?_map, Option.map_map]
  by_cases hp : p = projection
  · subst hp
    rw [if_pos rfl]
    have hkey : ((fun r => decide (Db.entry_key r = (p, key))) ∘ fun entry : ProjectionEntry =>
        (⟨p, entry.key, entry.value⟩ : ProjectionEntryRow))
          = fun entry => decide (entry.key = key) := by
      funext entry
      simp [Db.entry_key]
    rw [hkey]
    rfl
  · rw [if_neg hp, Option.map_eq_none_iff, List.find?_eq_none]
    intro entry _ hentry
    exact hp (Prod.mk.inj (of_decide_eq_true hentry)).1.symm

/-- **A mutation of the table is the mutation of one map**, and of no other. -/
theorem ProjectionMutation.effect_map (mutation : ProjectionMutation) :
    entry_map p (mutation.effect projection rows) =
      if p = projection then mutation.denote (entry_map p rows) else entry_map p rows := by
  funext key
  cases mutation with
  | Put k value =>
      have hkey : ∀ r : ProjectionEntryRow, Db.entry_key r = (projection, k) →
          Db.entry_key { r with value := value } = (projection, k) := fun _ hr => hr
      rw [effect, entry_map, lookup_upsert hkey]
      by_cases hp : p = projection
      · subst hp
        by_cases hk : key = k
        · subst hk
          have hsame : (p, key) = Db.entry_key ⟨p, key, value⟩ := rfl
          rw [if_pos hsame]
          simp only [denote, if_true]
          cases lookup Db.entry_key (p, key) rows <;> rfl
        · have hne : (p, key) ≠ Db.entry_key ⟨p, k, value⟩ := fun e => hk (Prod.mk.inj e).2
          rw [if_neg hne]
          simp [denote, hk, entry_map]
      · have hne : (p, key) ≠ Db.entry_key ⟨projection, k, value⟩ := fun e => hp (Prod.mk.inj e).1
        rw [if_neg hne, if_neg hp]
        rfl
  | Delete k =>
      -- The filter reads nothing of a row but its key.
      have hlookup : lookup Db.entry_key (p, key)
          (rows.filter fun r => Db.entry_key r ≠ (projection, k))
            = if decide ((p, key) ≠ (projection, k)) then lookup Db.entry_key (p, key) rows
              else none := lookup_filter fun k' => decide (k' ≠ (projection, k))
      rw [effect, entry_map, hlookup]
      by_cases hp : p = projection
      · subst hp
        by_cases hk : key = k <;> simp [denote, hk, entry_map]
      · have hne : (p, key) ≠ (projection, k) := fun e => hp (Prod.mk.inj e).1
        rw [if_neg hp, if_pos (decide_eq_true hne)]
        rfl
  | Clear =>
      rw [effect, entry_map_clear]
      split_ifs <;> rfl
  | Replace entries =>
      -- The rows that stay are of other projections, the rows that come of this one.
      have happend : entry_map p (effect projection rows (.Replace entries)) key =
          (entry_map p (rows.filter fun r => r.projection ≠ projection) key).or
            (entry_map p (entries.map fun entry => ⟨projection, entry.key, entry.value⟩) key) := by
        rw [effect, entry_map, lookup_append_rows, Option.map_or]
        rfl
      rw [happend, entry_map_clear, entry_map_replace]
      by_cases hp : p = projection
      · rw [if_pos hp, if_pos hp, if_pos hp, Option.none_or]
        rfl
      · rw [if_neg hp, if_neg hp, if_neg hp, Option.or_none]

/-- The same for a list of mutations. -/
theorem effect_map_foldl (mutations : List ProjectionMutation) :
    entry_map p (mutations.foldl (ProjectionMutation.effect projection) rows) =
      if p = projection then mutations.foldl ProjectionMutation.denote (entry_map p rows)
      else entry_map p rows := by
  induction mutations generalizing rows with
  | nil => split_ifs <;> rfl
  | cons mutation mutations ih =>
      rw [List.foldl_cons, ih, ProjectionMutation.effect_map]
      split_ifs with hp <;> rfl

/-- Mutations keep the primary key of the table. -/
theorem ProjectionMutation.effect_keyed {mutation : ProjectionMutation}
    (hkeyed : Keyed Db.entry_key rows) (hdistinct : mutation.Distinct) :
    Keyed Db.entry_key (mutation.effect projection rows) := by
  cases mutation with
  | Put key value => exact hkeyed.upsert fun _ hr => hr
  | Delete key => exact hkeyed.filter _
  | Clear => exact hkeyed.filter _
  | Replace entries =>
      have hnew : (entries.map fun entry => (projection, entry.key)).Nodup := by
        have hinj : Function.Injective fun key : Bytes => (projection, key) := fun _ _ h =>
          (Prod.mk.inj h).2
        have := (List.nodup_map_iff hinj).mpr hdistinct
        rw [List.map_map] at this
        exact this
      rw [effect, Keyed, List.map_append, List.nodup_append, List.map_map]
      refine ⟨hkeyed.filter _, hnew, ?_⟩
      intro a ha b hb hab
      obtain ⟨r, hr, rfl⟩ := List.mem_map.mp ha
      obtain ⟨entry, _, rfl⟩ := List.mem_map.mp hb
      -- The rows that are left are those of other projections.
      have hother : r.projection ≠ projection := of_decide_eq_true (List.mem_filter.mp hr).2
      exact hother (Prod.mk.inj hab).1

/-- Mutations touch rows of their projection only. -/
theorem ProjectionMutation.effect_mem {mutation : ProjectionMutation} {r : ProjectionEntryRow}
    (h : r ∈ mutation.effect projection rows) :
    r.projection = projection ∨ ∃ r₀ ∈ rows, r₀.projection = r.projection := by
  cases mutation with
  | Put key value =>
      rw [effect] at h
      unfold upsert at h
      split_ifs at h
      · obtain ⟨r₀, hr₀, rfl⟩ := mem_modify.mp h
        refine Or.inr ⟨r₀, hr₀, ?_⟩
        split <;> rfl
      · rcases List.mem_append.mp h with h | h
        · exact Or.inr ⟨r, h, rfl⟩
        · rw [List.mem_singleton.mp h]
          exact Or.inl rfl
  | Delete key => exact Or.inr ⟨r, (List.mem_filter.mp h).1, rfl⟩
  | Clear => exact Or.inr ⟨r, (List.mem_filter.mp h).1, rfl⟩
  | Replace entries =>
      rcases List.mem_append.mp h with h | h
      · exact Or.inr ⟨r, (List.mem_filter.mp h).1, rfl⟩
      · obtain ⟨entry, _, rfl⟩ := List.mem_map.mp h
        exact Or.inl rfl

/-- The same for a list of mutations. -/
theorem effect_mem_foldl (mutations : List ProjectionMutation) {r : ProjectionEntryRow}
    (h : r ∈ mutations.foldl (ProjectionMutation.effect projection) rows) :
    r.projection = projection ∨ ∃ r₀ ∈ rows, r₀.projection = r.projection := by
  induction mutations generalizing rows with
  | nil => exact Or.inr ⟨r, h, rfl⟩
  | cons mutation mutations ih =>
      rcases ih h with hr | ⟨r₁, hr₁, hsame⟩
      · exact Or.inl hr
      · -- What the later mutations kept, the first wrote or found.
        rcases ProjectionMutation.effect_mem hr₁ with hr | ⟨r₀, hr₀, hkept⟩
        · exact Or.inl (hsame.symm.trans hr)
        · exact Or.inr ⟨r₀, hr₀, hkept.trans hsame⟩

end Effect

/-! ## The invariant -/

/-- **The projections are what these operations make of them.** -/
structure Folded (ops : List Operation) (db : Db) : Prop where
  version : ∀ p, (db.projection_version p).toNat = (patches_of p ops).length
  entries : ∀ p, entry_map p db.projection_entries
    = (patches_of p ops).foldl ProjectionPatch.denote fun _ => none
  numbered : ∀ p, Consecutive (fun patch => patch.new_version.toNat) (patches_of p ops)
  valid : ∀ patch ∈ patches ops,
    patch.new_version.toNat = patch.expected_version.toNat + 1
  keyed : Keyed Db.entry_key db.projection_entries
  owned : ∀ r ∈ db.projection_entries,
    (lookup ProjectionMetaRow.projection r.projection db.projection_meta).isSome

theorem patches_append (ops ops' : List Operation) :
    patches (ops ++ ops') = patches ops ++ patches ops' :=
  List.filterMap_append

theorem patches_concat (ops : List Operation) (patch : ProjectionPatch) :
    patches (ops ++ [.ProjectionPatch patch]) = patches ops ++ [patch] :=
  patches_append ops [.ProjectionPatch patch]

theorem patches_of_append (p : String) (ops : List Operation) (patch : ProjectionPatch) :
    patches_of p (ops ++ [.ProjectionPatch patch]) =
      if p = patch.projection then patches_of p ops ++ [patch] else patches_of p ops := by
  rw [patches_of, patches_concat]
  split_ifs with hp
  · rw [of_append_same hp.symm]
    rfl
  · rw [of_append_ne fun e => hp e.symm]
    rfl

theorem Db.with_patch_version (db : Db) (patch : ProjectionPatch) (p : String) :
    (db.with_patch patch).projection_version p =
      if p = patch.projection then patch.new_version else db.projection_version p := by
  have hkey : ∀ r : ProjectionMetaRow, r.projection = patch.projection →
      ({ r with version := patch.new_version } : ProjectionMetaRow).projection
        = patch.projection := fun _ hr => hr
  rw [projection_version, with_patch, lookup_upsert hkey]
  by_cases hp : p = patch.projection
  · rw [if_pos hp, if_pos hp]
    cases lookup ProjectionMetaRow.projection p db.projection_meta <;> rfl
  · rw [if_neg hp, if_neg hp]
    rfl

/-- A patch creates the row its entries refer to, and deletes none. -/
theorem Db.with_patch_meta (db : Db) (patch : ProjectionPatch) {p : String}
    (h : p = patch.projection
      ∨ (lookup ProjectionMetaRow.projection p db.projection_meta).isSome) :
    (lookup ProjectionMetaRow.projection p (db.with_patch patch).projection_meta).isSome := by
  have hkey : ∀ r : ProjectionMetaRow, r.projection = patch.projection →
      ({ r with version := patch.new_version } : ProjectionMetaRow).projection
        = patch.projection := fun _ hr => hr
  rw [with_patch, lookup_upsert hkey]
  split_ifs with hp
  · rfl
  · exact h.resolve_left hp

namespace Folded

variable {ops : List Operation} {db : Db}

theorem empty : Folded [] Db.empty where
  version := fun _ => rfl
  entries := fun _ => rfl
  numbered := fun _ => .nil
  valid := by simp [patches]
  keyed := List.nodup_nil
  owned := by simp [Db.empty]

/-- Only the projection tables and the patches matter. -/
theorem congr (h : Folded ops db) {ops' : List Operation} {db' : Db}
    (hmeta : db'.projection_meta = db.projection_meta)
    (hentries : db'.projection_entries = db.projection_entries)
    (hpatches : patches ops' = patches ops) : Folded ops' db' := by
  have hof : ∀ p, patches_of p ops' = patches_of p ops := fun p =>
    congrArg (of ProjectionPatch.projection p) hpatches
  constructor
  · intro p
    rw [Db.projection_version, hmeta, hof]
    exact h.version p
  · intro p
    rw [hentries, hof]
    exact h.entries p
  · intro p
    rw [hof]
    exact h.numbered p
  · rw [hpatches]
    exact h.valid
  · rw [hentries]
    exact h.keyed
  · rw [hentries, hmeta]
    exact h.owned

/-- A validated patch on the current version is one more patch. -/
theorem with_patch (h : Folded ops db) {patch : ProjectionPatch} (hvalid : patch.validate = .ok ())
    (hversion : db.projection_version patch.projection = patch.expected_version) :
    Folded (ops ++ [.ProjectionPatch patch]) (db.with_patch patch) := by
  have hnext : patch.new_version.toNat = (patches_of patch.projection ops).length + 1 := by
    rw [ProjectionPatch.validate_version hvalid, ← hversion, h.version]
  constructor
  · intro p
    rw [Db.with_patch_version, patches_of_append]
    split_ifs with hp
    · rw [List.length_append, List.length_singleton, hnext, hp]
    · exact h.version p
  · intro p
    have hentries : entry_map p (db.with_patch patch).projection_entries = if p = patch.projection
        then patch.mutations.foldl ProjectionMutation.denote (entry_map p db.projection_entries)
        else entry_map p db.projection_entries := effect_map_foldl patch.mutations
    rw [hentries, patches_of_append]
    split_ifs with hp
    · rw [List.foldl_append, ← h.entries p]
      rfl
    · exact h.entries p
  · intro p
    rw [patches_of, patches_concat]
    exact append_of h.numbered hnext p
  · rw [patches_concat]
    intro patch' hpatch'
    rcases List.mem_append.mp hpatch' with hpatch' | hpatch'
    · exact h.valid patch' hpatch'
    · rw [List.mem_singleton.mp hpatch']
      exact ProjectionPatch.validate_version hvalid
  · -- The key is kept mutation by mutation.
    have hdistinct := ProjectionPatch.validate_distinct hvalid
    show Keyed Db.entry_key (patch.mutations.foldl _ db.projection_entries)
    exact List.foldlRecOn patch.mutations _ h.keyed fun _ hrows mutation hmem =>
      ProjectionMutation.effect_keyed hrows (hdistinct mutation hmem)
  · intro r hr
    refine db.with_patch_meta patch ?_
    -- A row that no mutation of the patch wrote was there before, or one of its projection was.
    rcases effect_mem_foldl patch.mutations hr with hr | ⟨r₀, hr₀, hsame⟩
    · exact Or.inl hr
    · rw [← hsame]
      exact Or.inr (h.owned r₀ hr₀)

theorem step {batch : CommitBatch} {x y : Db × StreamVersions} {op : Operation}
    (h : Folded ops x.1) (happlies : Applies batch x op y) : Folded (ops ++ [op]) y.1 := by
  cases happlies with
  | event _ _ _ =>
      refine h.congr rfl rfl ?_
      rw [patches_append]
      exact List.append_nil _
  | patch hvalid hversion => exact h.with_patch hvalid hversion
  | job hop _ =>
      refine h.congr rfl rfl ?_
      rw [patches_append, patches, patches, List.filterMap_cons, Operation.patch_of_job hop]
      exact List.append_nil _

theorem steps {batch : CommitBatch} {x y : Db × StreamVersions} {ops' : List Operation}
    (h : Folded ops x.1) (hsteps : Steps (Applies batch) x ops' y) : Folded (ops ++ ops') y.1 := by
  induction hsteps generalizing ops with
  | nil x =>
      rw [List.append_nil]
      exact h
  | cons head _ ih =>
      have := ih (h.step head)
      rw [List.append_assoc] at this
      exact this

/-- **What a call persists adds its operations.** -/
theorem persisted {db' : Db} {i : Input} {as : List JobAction} (h : Folded ops db)
    (hp : Persisted db i as db') : Folded (ops ++ i.operations) db' := by
  cases hp with
  | @commit batch _ _ happlied =>
      obtain ⟨_, _, hoperations⟩ := happlied
      have hstart : Folded ops (db.with_transaction
          (commit_transaction batch db.next_transaction_sequence)) := h.congr rfl rfl rfl
      exact (hstart.steps hoperations).congr rfl rfl rfl
  | claim _ hclaimed =>
      obtain ⟨t, _, rfl⟩ := hclaimed.steps
      exact h.congr rfl rfl (congrArg patches (List.append_nil ops))
  | extend _ hdb =>
      rw [hdb]
      exact h.congr rfl rfl (congrArg patches (List.append_nil ops))

/-- The same for every call of a run, with the operations it committed. -/
theorem transition {s : ControlPlaneStore} (hs : s.Valid) (h : Folded ops s.db) (i : Input) :
    Folded (ops ++ StoreStep.committed_operations (Runs.transition MiniSqlite.step s i))
      (MiniSqlite.step s i).2.db := by
  rcases step_persisted hs i with hsame | ⟨as, hpersisted⟩
  · rw [StoreStep.committed_operations_same hsame, List.append_nil, hsame]
    exact h
  · rw [StoreStep.committed_operations_persisted (t := Runs.transition MiniSqlite.step s i)
      hpersisted]
    exact h.persisted hpersisted

end Folded

/-- The operations a history committed, in the order they were. -/
def committed (ts : List StoreStep) : List Operation := ts.flatMap StoreStep.committed_operations

theorem folded_trace {s : ControlPlaneStore} (hs : s.Valid) {ops : List Operation}
    (h : Folded ops s.db) (inputs : List Input) :
    Folded (ops ++ committed (trace step s inputs)) (exec step s inputs).db := by
  induction inputs generalizing s ops with
  | nil => exact h.congr rfl rfl (congrArg patches (List.append_nil ops))
  | cons i inputs ih =>
      have hrest := ih (hs.step i) (h.transition hs i)
      rw [List.append_assoc] at hrest
      exact hrest

/-! ## What readers see -/

/-- The patches of a projection that a history committed, in commit order and within
a batch in its order. -/
def committed_patches (projection : String) (ts : List StoreStep) : List ProjectionPatch :=
  patches_of projection (committed ts)

/-- **Projections are the fold of their patches.** In every reachable state the
version of a projection counts its committed patches, its entries are what these
make of the empty map, whatever was committed for other projections, and no two of
them were made on the same version. A batch that was answered with a receipt under a
new id is committed, with all its patches. -/
theorem projections_fold (limits : Limits) (inputs : List Input) (projection : String) :
    ((run limits inputs).db.projection_version projection).toNat
        = (committed_patches projection (history limits inputs)).length
      ∧ entry_map projection (run limits inputs).db.projection_entries
        = (committed_patches projection (history limits inputs)).foldl ProjectionPatch.denote
          (fun _ => none)
      ∧ ((committed_patches projection (history limits inputs)).map
          ProjectionPatch.expected_version).Nodup
      ∧ ∀ t ∈ history limits inputs, ∀ batch, StoreStep.Accepted t batch →
          StoreStep.committed_operations t = batch.operations := by
  have h : Folded (committed (history limits inputs)) (run limits inputs).db :=
    folded_trace (valid_empty limits) .empty inputs
  refine ⟨h.version projection, h.entries projection, ?_, ?_⟩
  · -- Patches on one version would carry one number.
    have hnumbers := (h.numbered projection).nodup
    refine nodup_map_of_nodup_map hnumbers ?_
    intro a ha b hb heq
    have hva := h.valid a (mem_of.mp ha).1
    have hvb := h.valid b (mem_of.mp hb).1
    rw [hva, hvb, heq]
  · intro t ht batch haccepted
    obtain ⟨_, i, _, rfl, rfl⟩ := mem_trace ht
    exact haccepted.committed_operations

/-! A patch that puts two keys, of which one starts with `0xFF`. -/

namespace OnePatch

def patch : MiniSqlite.ProjectionPatch := ⟨"p", 0, 1, [.Put [1] [7], .Put [255, 1] [8]]⟩

def batch : CommitBatch := ⟨Id.ofByte 100, 5, none, [], [], [.ProjectionPatch patch]⟩

def inputs : List Input := [⟨.commit batch, Env.faultFree []⟩]

end OnePatch

/-- It is accepted, so it is committed, and the projection is what it makes of the empty map. -/
theorem projections_fold_one_patch :
    committed (history Limits.new OnePatch.inputs) = OnePatch.batch.operations ∧
      entry_map "p" (run Limits.new OnePatch.inputs).db.projection_entries
        = ProjectionPatch.denote (fun _ => none) OnePatch.patch := by
  obtain ⟨_, hentries, _, haccepted⟩ := projections_fold Limits.new OnePatch.inputs "p"
  have hoperations := haccepted (transition step (run Limits.new []) ⟨.commit OnePatch.batch,
    Env.faultFree []⟩) List.mem_cons_self OnePatch.batch ⟨rfl, ⟨_, rfl⟩, rfl⟩
  have hcommitted : committed (history Limits.new OnePatch.inputs) = OnePatch.batch.operations :=
    (List.append_nil _).trans hoperations
  refine ⟨hcommitted, hentries.trans ?_⟩
  rw [committed_patches, hcommitted]
  rfl

end MiniSqlite
