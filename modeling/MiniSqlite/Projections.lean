/-
Projection patches (`store/projections.rs`).

A patch is checked a second time inside the transaction, moves the version of its
projection by one, and then runs its mutations in order on the entries.
-/
import MiniSqlite.Schema

set_option autoImplicit false

namespace MiniSqlite

open Txn Rows

/-! ## The program -/

/-- The current version of a projection, 0 when it does not exist. -/
def version_query (projection : String) : Sql Error UInt64 := do
  let version ← (query fun db =>
    (lookup ProjectionMetaRow.projection projection db.projection_meta).map
      ProjectionMetaRow.version).orStorage
  return version.getD 0

def clear_entries (projection : String) : Sql Error Unit :=
  (execute (Db.delete_projection_entries projection)).orStorage

/-- One arm of the mutation loop. -/
def apply_mutation (projection : String) : ProjectionMutation → Sql Error Unit
  | .Put key value =>
    (execute (Db.upsert_projection_entry ⟨projection, key, value⟩)).orStorage
  | .Delete key => (execute (Db.delete_projection_entry projection key)).orStorage
  | .Clear => clear_entries projection
  | .Replace entries => do
    clear_entries projection
    entries.forM fun entry =>
      (execute (Db.insert_projection_entry ⟨projection, entry.key, entry.value⟩)).orStorage

/-- Apply one validated projection patch inside the commit transaction. -/
def apply_projection_patch (patch : ProjectionPatch) : Sql Error Unit := do
  Tx.ofExcept (patch.validate.mapError Error.Validation)
  let actual ← version_query patch.projection
  if actual ≠ patch.expected_version then
    Tx.fail (.Conflict (.ProjectionVersion patch.projection patch.expected_version actual))
  else do
    (execute (Db.upsert_projection_meta patch.projection patch.new_version)).orStorage
    patch.mutations.forM (apply_mutation patch.projection)

end MiniSqlite
