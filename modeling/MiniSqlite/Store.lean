/-
The store façade (`store/mod.rs`) as a machine: its calls, what they answer, and
its runs.

A writer connection is dropped after an unknown COMMIT outcome and reopened by
the next call. Everything outside the store's control during one call is its
`Env`: whether reopening works, which statement fails, what the random source
hands out, and how COMMIT ends.
-/
import MiniSqlite.Commit
import MiniSqlite.Lib.Runs

set_option autoImplicit false

namespace MiniSqlite

open Txn Rows Runs

/-- The durable database, and whether the writer connection is open. -/
structure ControlPlaneStore where
  limits : Limits
  db : Db
  writer : Bool
deriving DecidableEq

/-- What the outside world does during one call. `reopen` is the message
`connection::open` fails with, when it fails. -/
structure Env where
  reopen : Option String
  world : World Id
deriving DecidableEq

/-- A call during which nothing fails. -/
def Env.faultFree (supply : List Id) : Env := ⟨none, World.faultFree supply⟩

/-! ## The calls -/

/-- `matches!(result, Err(E::Indeterminate(_)))`. -/
def is_err {ε α : Type} (p : ε → Bool) : Except ε α → Bool
  | .error e => p e
  | .ok _ => false

namespace ControlPlaneStore

/-- An empty migrated store. -/
def empty (limits : Limits) : ControlPlaneStore := ⟨limits, Db.empty, true⟩

/-- The live writer connection, reopened if a previous indeterminate COMMIT
poisoned it. -/
def connection (s : ControlPlaneStore) (env : Env) : Except StorageError Unit :=
  if s.writer then .ok ()
  else match env.reopen with
    | some message => .error (.Sqlite message)
    | none => .ok ()

/-- A call on the writer connection: take the connection, run, and discard it
when the outcome of COMMIT is unknown. -/
def with_writer {ε α : Type} (storage : StorageError → ε) (is_indeterminate : ε → Bool)
    (call : World Id → Db → Except ε α × Db) (s : ControlPlaneStore) (env : Env) :
    Except ε α × ControlPlaneStore :=
  match s.connection env with
  | .error e => (.error (storage e), s)
  | .ok () =>
    let (result, db) := call env.world s.db
    (result, { s with db := db, writer := !is_err is_indeterminate result })

/-- A read on the writer connection, outside any transaction. -/
def read {ε α : Type} (program : Sql ε α) (w : World Id) (db : Db) : Except ε α × Db :=
  ((program.run ⟨db, w.fuse, w.supply⟩).1, db)

def commit (batch : CommitBatch) (s : ControlPlaneStore) (env : Env) :
    Except CommitError CommitReceipt × ControlPlaneStore :=
  s.with_writer CommitError.Storage CommitError.is_indeterminate
    (MiniSqlite.commit s.limits batch) env

def claim_jobs (request : ClaimRequest) (s : ControlPlaneStore) (env : Env) :
    Except ClaimError ClaimOutcome × ControlPlaneStore :=
  s.with_writer ClaimError.Storage ClaimError.is_indeterminate (MiniSqlite.claim_jobs request) env

def extend_lease (job_id lease_token : Id) (new_expiry_ms now_ms : Int64)
    (s : ControlPlaneStore) (env : Env) :
    Except LeaseError LeaseExtensionReceipt × ControlPlaneStore :=
  s.with_writer LeaseError.Storage LeaseError.is_indeterminate
    (MiniSqlite.extend_lease job_id lease_token new_expiry_ms now_ms) env

def recover_transaction (transaction_id : Id) (s : ControlPlaneStore) (env : Env) :
    Except RecoveryError TransactionRecovery × ControlPlaneStore :=
  s.with_writer RecoveryError.Storage (fun _ => false)
    (read ((MiniSqlite.recover_transaction transaction_id).mapErr RecoveryError.Storage)) env

def recover_claim (transaction_id : Id) (now_ms : Int64) (s : ControlPlaneStore) (env : Env) :
    Except RecoveryError ClaimRecovery × ControlPlaneStore :=
  s.with_writer RecoveryError.Storage (fun _ => false)
    (read (MiniSqlite.recover_claim transaction_id now_ms)) env

end ControlPlaneStore

/-! ## The machine -/

inductive Call where
  | commit (batch : CommitBatch)
  | claim_jobs (request : ClaimRequest)
  | extend_lease (job_id lease_token : Id) (new_expiry_ms now_ms : Int64)
  | recover_transaction (transaction_id : Id)
  | recover_claim (transaction_id : Id) (now_ms : Int64)
deriving DecidableEq

inductive Response where
  | commit (result : Except CommitError CommitReceipt)
  | claim_jobs (result : Except ClaimError ClaimOutcome)
  | extend_lease (result : Except LeaseError LeaseExtensionReceipt)
  | recover_transaction (result : Except RecoveryError TransactionRecovery)
  | recover_claim (result : Except RecoveryError ClaimRecovery)
deriving DecidableEq

/-- A call together with what the world does during it. -/
structure Input where
  call : Call
  env : Env
deriving DecidableEq

/-- One call on the store. -/
def step (s : ControlPlaneStore) (i : Input) : Response × ControlPlaneStore :=
  match i.call with
  | .commit batch => (s.commit batch i.env).map .commit id
  | .claim_jobs request => (s.claim_jobs request i.env).map .claim_jobs id
  | .extend_lease job_id lease_token new_expiry_ms now_ms =>
    (s.extend_lease job_id lease_token new_expiry_ms now_ms i.env).map .extend_lease id
  | .recover_transaction transaction_id =>
    (s.recover_transaction transaction_id i.env).map .recover_transaction id
  | .recover_claim transaction_id now_ms =>
    (s.recover_claim transaction_id now_ms i.env).map .recover_claim id

/-- The state a sequence of calls on an empty migrated store leads to. -/
def run (limits : Limits) (inputs : List Input) : ControlPlaneStore :=
  exec step (ControlPlaneStore.empty limits) inputs

/-- The steps of that sequence. -/
def history (limits : Limits) (inputs : List Input) :
    List (Transition ControlPlaneStore Input Response) :=
  trace step (ControlPlaneStore.empty limits) inputs

/-! ## Fresh identifiers -/

/-- What `Id::new` returns during the run, call by call, if every value the random
source holds ready is drawn. -/
def issued (inputs : List Input) : List Id :=
  inputs.flatMap fun i => i.env.world.supply.map Id.of_random

/-- `Id::new` never returns an id issued before. -/
def Fresh (inputs : List Input) : Prop := (issued inputs).Nodup

instance (inputs : List Input) : Decidable (Fresh inputs) :=
  inferInstanceAs (Decidable (issued inputs).Nodup)

end MiniSqlite
