/-
The canonical request digest of `transaction.rs`.

`CommitBatch::request_digest` feeds SHA-256 a sequence of writes: fixed-width
big-endian integers, tags, and length-prefixed byte strings. Here every `write_*`
is the list of the chunks it hands to the hasher, `request_chunks` is the whole
sequence for a batch, `encoding` the bytes it spells, and `request_digest` the
hasher run over it.

The second half shows that the encoding determines the batch up to its
transaction id. Lengths are written as `u64`; a batch is `Sized` when its lengths
are those a `Vec` or a `String` can have.
-/
import MiniSqlite.Sha256
import MiniSqlite.Lib.PrefixFree

set_option autoImplicit false

namespace MiniSqlite

open PrefixFree

/-! ## The writes -/

/-- The chunks handed to `Sha256::update`, in order. -/
abbrev Writes := List Bytes

/-- `str::as_bytes`. -/
def as_bytes (s : String) : Bytes := s.toByteArray.data.toList

/-- A byte is one write. -/
def write_u8 (v : UInt8) : Writes := [[v]]

/-- A `u64` is written in eight bytes, most significant first. -/
def write_u64 (v : UInt64) : Writes := [to_be_bytes 8 v.toNat]

/-- An `i64` is written as the `u64` with the same bits. -/
def write_i64 (v : Int64) : Writes := [to_be_bytes 8 v.toUInt64.toNat]

/-- The length comes before the bytes, so that what follows cannot be taken for part of them. -/
def write_bytes (bytes : Bytes) : Writes := write_u64 (UInt64.ofNat bytes.length) ++ [bytes]

/-- A string is written as its UTF-8 bytes. -/
def write_str (s : String) : Writes := write_bytes (as_bytes s)

/-- Sixteen bytes need no length. -/
def write_id (id : Id) : Writes := [id.bytes]

/-- The `match` the source writes out for every optional field: a one-byte flag,
then the value when there is one. -/
def write_opt {α : Type} (write : α → Writes) : Option α → Writes
  | some a => write_u8 1 ++ write a
  | none => write_u8 0

/-- A tag says whether an identifier follows. -/
def write_opt_id (id : Option Id) : Writes := write_opt write_id id

/-- A mutation is its tag and its fields. -/
def digest_mutation : ProjectionMutation → Writes
  | .Put key value => write_u8 1 ++ write_bytes key ++ write_bytes value
  | .Delete key => write_u8 2 ++ write_bytes key
  | .Clear => write_u8 3
  | .Replace entries => write_u8 4 ++ write_u64 (UInt64.ofNat entries.length) ++
      entries.flatMap fun entry => write_bytes entry.key ++ write_bytes entry.value

/-- A resolution is one byte. -/
def resolution_code : Resolution → UInt8
  | .Retry => 1
  | .MarkSucceeded => 2
  | .MarkDead => 3

/-- An operation is its tag and its fields, in the order of the struct. -/
def digest_operation : Operation → Writes
  | .AppendEvent e =>
    write_u8 1 ++ write_id e.event_id ++ write_str e.stream_id ++ write_str e.event_type ++
      write_u64 e.schema_version.toUInt64 ++ write_i64 e.occurred_at_ms ++
      write_opt_id e.causation_id ++ write_opt_id e.correlation_id ++
      write_bytes e.payload ++ write_bytes e.metadata
  | .ProjectionPatch p =>
    write_u8 2 ++ write_str p.projection ++ write_u64 p.expected_version ++
      write_u64 p.new_version ++ write_u64 (UInt64.ofNat p.mutations.length) ++
      p.mutations.flatMap digest_mutation
  | .EnqueueJob j =>
    write_u8 3 ++ write_id j.job_id ++ write_str j.queue ++ write_str j.partition_key ++
      write_bytes j.payload ++ write_i64 j.not_before_ms ++
      write_u64 j.max_attempts.toUInt64 ++ write_u8 (UInt8.ofNat j.effect_mode.encode) ++
      write_opt write_str j.idempotency_key
  | .AckJob a =>
    write_u8 4 ++ write_id a.job_id ++ write_id a.lease_token ++
      write_opt write_bytes a.result_digest
  | .FailJob f =>
    write_u8 5 ++ write_id f.job_id ++ write_id f.lease_token ++ write_str f.error_summary ++
      write_opt write_i64 f.retry_after_ms
  | .CancelJob c => write_u8 6 ++ write_id c.job_id ++ write_opt_id c.lease_token
  | .ResolveJob r =>
    write_u8 7 ++ write_id r.job_id ++ write_u8 (resolution_code r.resolution)
  | .ExtendLease e =>
    write_u8 8 ++ write_id e.job_id ++ write_id e.lease_token ++ write_i64 e.new_expiry_ms

namespace CommitBatch

/-- Everything `request_digest` writes. -/
def request_chunks (b : CommitBatch) : Writes :=
  write_i64 b.committed_at_ms ++ write_opt_id b.correlation_id ++ write_bytes b.metadata ++
    write_u64 (UInt64.ofNat b.expected_stream_versions.length) ++
    b.expected_stream_versions.flatMap (fun expected =>
      write_str expected.stream_id ++ write_u64 expected.version) ++
    write_u64 (UInt64.ofNat b.operations.length) ++ b.operations.flatMap digest_operation

/-- The byte sequence that is hashed. -/
def encoding (b : CommitBatch) : Bytes := b.request_chunks.flatten

/-- The digest of a batch: SHA-256 of the writes in their order. -/
def request_digest (b : CommitBatch) : Bytes :=
  (b.request_chunks.foldl Sha256.update Sha256.new).finish

/-- A digest has 32 bytes, whatever the batch. -/
@[simp] theorem length_request_digest (b : CommitBatch) : b.request_digest.length = 32 :=
  Sha256.length_finish _

/-- Two batches agree on everything the digest covers: all but the transaction id. -/
def SameContent (a b : CommitBatch) : Prop :=
  a.committed_at_ms = b.committed_at_ms ∧ a.correlation_id = b.correlation_id ∧
    a.metadata = b.metadata ∧ a.expected_stream_versions = b.expected_stream_versions ∧
    a.operations = b.operations

instance (a b : CommitBatch) : Decidable (SameContent a b) :=
  inferInstanceAs (Decidable (a.committed_at_ms = b.committed_at_ms ∧
    a.correlation_id = b.correlation_id ∧ a.metadata = b.metadata ∧
    a.expected_stream_versions = b.expected_stream_versions ∧ a.operations = b.operations))

end CommitBatch

/-! ## Lengths -/

/-- A length a `Vec` or a `String` can have. -/
def Fits (n : ℕ) : Prop := n < UInt64.size

instance (n : ℕ) : Decidable (Fits n) := inferInstanceAs (Decidable (n < UInt64.size))

/-- Every length in a mutation fits the eight bytes it is written in. -/
def ProjectionMutation.Sized : ProjectionMutation → Prop
  | .Put key value => Fits key.length ∧ Fits value.length
  | .Delete key => Fits key.length
  | .Clear => True
  | .Replace entries =>
    Fits entries.length ∧ ∀ e ∈ entries, Fits e.key.length ∧ Fits e.value.length

/-- Every length in an operation does. -/
def Operation.Sized : Operation → Prop
  | .AppendEvent e => Fits (as_bytes e.stream_id).length ∧ Fits (as_bytes e.event_type).length ∧
      Fits e.payload.length ∧ Fits e.metadata.length
  | .ProjectionPatch p => Fits (as_bytes p.projection).length ∧ Fits p.mutations.length ∧
      ∀ m ∈ p.mutations, m.Sized
  | .EnqueueJob j => Fits (as_bytes j.queue).length ∧ Fits (as_bytes j.partition_key).length ∧
      Fits j.payload.length ∧ ∀ key ∈ j.idempotency_key, Fits (as_bytes key).length
  | .AckJob a => ∀ digest ∈ a.result_digest, Fits digest.length
  | .FailJob f => Fits (as_bytes f.error_summary).length
  | .CancelJob _ => True
  | .ResolveJob _ => True
  | .ExtendLease _ => True

/-- Every length in the batch is a `usize`, as Rust's types guarantee. -/
structure CommitBatch.Sized (b : CommitBatch) : Prop where
  metadata : Fits b.metadata.length
  expectations : Fits b.expected_stream_versions.length
  stream_ids : ∀ e ∈ b.expected_stream_versions, Fits (as_bytes e.stream_id).length
  operations : Fits b.operations.length
  operation : ∀ op ∈ b.operations, op.Sized

/-! ## Reading the writes back -/

/-- The bytes determine the value modulo the width. -/
theorem to_be_bytes_mod {width n m : ℕ} (h : to_be_bytes width n = to_be_bytes width m) :
    n % 256 ^ width = m % 256 ^ width := by
  induction width with
  | zero => simp [Nat.mod_one]
  | succ width ih =>
      simp only [to_be_bytes, List.cons.injEq] at h
      have hhigh : n / 256 ^ width % 256 = m / 256 ^ width % 256 := by
        have := congrArg UInt8.toNat h.1
        simpa using this
      rw [pow_succ, Nat.mod_mul, Nat.mod_mul, hhigh, ih h.2]

/-- Big-endian bytes of a number that fits them are read back. -/
theorem to_be_bytes_inj {width n m : ℕ} (hn : n < 256 ^ width) (hm : m < 256 ^ width)
    (h : to_be_bytes width n = to_be_bytes width m) : n = m := by
  have := to_be_bytes_mod h
  rwa [Nat.mod_eq_of_lt hn, Nat.mod_eq_of_lt hm] at this

/-- Numbers of fixed width, -/
theorem write_u64_unambiguous : Unambiguous (fun _ => True) fun v => (write_u64 v).flatten := by
  refine .of_width (n := 8) (by simp [write_u64]) ?_
  intro a b _ _ h
  simp only [write_u64, List.flatten_cons, List.flatten_nil, List.append_nil] at h
  exact UInt64.toNat_inj.mp
    (to_be_bytes_inj (by simpa using a.toNat_lt) (by simpa using b.toNat_lt) h)

/-- signed or not, -/
theorem write_i64_unambiguous : Unambiguous (fun _ => True) fun v => (write_i64 v).flatten := by
  refine .of_width (n := 8) (by simp [write_i64]) ?_
  intro a b _ _ h
  simp only [write_i64, List.flatten_cons, List.flatten_nil, List.append_nil] at h
  have hbits := UInt64.toNat_inj.mp
    (to_be_bytes_inj (by simpa using a.toUInt64.toNat_lt) (by simpa using b.toUInt64.toNat_lt) h)
  exact congrArg Int64.ofUInt64 hbits

/-- bytes, -/
theorem write_u8_unambiguous : Unambiguous (fun _ => True) fun v => (write_u8 v).flatten := by
  refine .of_width (n := 1) (by simp [write_u8]) ?_
  intro a b _ _ h
  simpa [write_u8] using h

/-- and identifiers can be read off what begins with them. -/
theorem write_id_unambiguous : Unambiguous (fun _ => True) fun id => (write_id id).flatten := by
  refine .of_width (n := 16) (fun id => by simp [write_id, id.size]) ?_
  rintro ⟨a, ha⟩ ⟨b, hb⟩ _ _ h
  simpa [write_id] using h

/-- A length that fits is written without loss. -/
theorem ofNat_inj_of_fits {n m : ℕ} (hn : Fits n) (hm : Fits m)
    (h : UInt64.ofNat n = UInt64.ofNat m) : n = m := by
  have := congrArg UInt64.toNat h
  simp only [UInt64.toNat_ofNat'] at this
  rwa [Nat.mod_eq_of_lt hn, Nat.mod_eq_of_lt hm] at this

/-- Bytes with their length before them can. -/
theorem write_bytes_unambiguous :
    Unambiguous (fun b : Bytes => Fits b.length) fun b => (write_bytes b).flatten := by
  intro a b ha hb x y h
  simp only [write_bytes, List.flatten_append, List.flatten_cons, List.flatten_nil,
    List.append_nil, List.append_assoc] at h
  obtain ⟨hlen, hrest⟩ := write_u64_unambiguous trivial trivial h
  exact append_inj_of_length (ofNat_inj_of_fits ha hb hlen) hrest

/-- UTF-8 is injective. -/
theorem as_bytes_inj {s t : String} (h : as_bytes s = as_bytes t) : s = t := by
  apply String.toByteArray_inj.mp
  apply ByteArray.ext
  exact Array.toList_inj.mp h

/-- So strings can. -/
theorem write_str_unambiguous :
    Unambiguous (fun s => Fits (as_bytes s).length) fun s => (write_str s).flatten := by
  intro a b ha hb x y h
  obtain ⟨hbytes, hrest⟩ := write_bytes_unambiguous ha hb h
  exact ⟨as_bytes_inj hbytes, hrest⟩

/-- What is optional can, by its tag. -/
theorem write_opt_unambiguous {α : Type} {S : α → Prop} {f : α → Writes}
    (hf : Unambiguous S fun a => (f a).flatten) :
    Unambiguous (fun o : Option α => ∀ a ∈ o, S a) fun o => (write_opt f o).flatten := by
  intro a b ha hb x y h
  rcases a with _ | a <;> rcases b with _ | b <;>
    simp only [write_opt, List.flatten_append, List.append_assoc] at h
  · exact ⟨rfl, (write_u8_unambiguous trivial trivial h).2⟩
  · exact absurd (write_u8_unambiguous trivial trivial h).1 (by decide)
  · exact absurd (write_u8_unambiguous trivial trivial h).1 (by decide)
  · obtain ⟨_, h⟩ := write_u8_unambiguous trivial trivial h
    obtain ⟨rfl, hrest⟩ := hf (ha a rfl) (hb b rfl) h
    exact ⟨rfl, hrest⟩

/-- Optional identifiers. -/
theorem write_opt_id_unambiguous :
    Unambiguous (fun _ => True) fun id => (write_opt_id id).flatten := by
  intro a b _ _ x y h
  exact write_opt_unambiguous write_id_unambiguous (fun _ _ => trivial) (fun _ _ => trivial) h

/-- A list of writes flattens element by element. -/
theorem flatten_flatMap {α : Type} (l : List α) (f : α → Writes) :
    (l.flatMap f).flatten = l.flatMap fun a => (f a).flatten := by
  induction l with
  | nil => rfl
  | cons a l ih => simp [ih]

/-- A counted list: its length, then its elements. -/
theorem counted_unambiguous {α : Type} {S : α → Prop} {f : α → Writes}
    (hf : Unambiguous S fun a => (f a).flatten) :
    Unambiguous (fun l : List α => Fits l.length ∧ ∀ a ∈ l, S a)
      fun l => (write_u64 (UInt64.ofNat l.length) ++ l.flatMap f).flatten := by
  rintro l l' ⟨hfits, hS⟩ ⟨hfits', hS'⟩ x y h
  simp only [List.flatten_append, flatten_flatMap, List.append_assoc] at h
  obtain ⟨hlen, hrest⟩ := write_u64_unambiguous trivial trivial h
  exact hf.flatMap hS hS' (ofNat_inj_of_fits hfits hfits' hlen) hrest

/-- Reading a counted list off the front, the shape the batch proofs meet it in. -/
theorem read_counted {α : Type} {S : α → Prop} {f : α → Writes}
    (hf : Unambiguous S fun a => (f a).flatten) {l l' : List α}
    (hl : Fits l.length ∧ ∀ a ∈ l, S a) (hl' : Fits l'.length ∧ ∀ a ∈ l', S a) {x y : Bytes}
    (h : (write_u64 (UInt64.ofNat l.length)).flatten ++ ((l.flatMap f).flatten ++ x) =
      (write_u64 (UInt64.ofNat l'.length)).flatten ++ ((l'.flatMap f).flatten ++ y)) :
    l = l' ∧ x = y :=
  counted_unambiguous hf hl hl'
    (by simpa only [List.flatten_append, List.append_assoc] using h)

/-- A key and a value. -/
theorem entry_unambiguous :
    Unambiguous (fun e : ProjectionEntry => Fits e.key.length ∧ Fits e.value.length)
      fun e => (write_bytes e.key ++ write_bytes e.value).flatten := by
  rintro ⟨k, v⟩ ⟨k', v'⟩ ⟨hk, hv⟩ ⟨hk', hv'⟩ x y h
  simp only [List.flatten_append, List.append_assoc] at h
  obtain ⟨hkey, h₁⟩ := write_bytes_unambiguous hk hk' h
  obtain ⟨hvalue, h₂⟩ := write_bytes_unambiguous hv hv' h₁
  cases hkey
  cases hvalue
  exact ⟨rfl, h₂⟩

/-- Writes that start with a tag: equal writes have equal tags. -/
theorem tag_eq_of_writes {α : Type} {f : α → Writes} {tag : α → UInt8}
    (hf : ∀ a, ∃ rest : Writes, f a = write_u8 (tag a) ++ rest) {a b : α} {x y : Bytes}
    (h : (f a).flatten ++ x = (f b).flatten ++ y) : tag a = tag b := by
  obtain ⟨ra, hra⟩ := hf a
  obtain ⟨rb, hrb⟩ := hf b
  rw [hra, hrb] at h
  simp only [List.flatten_append, List.append_assoc] at h
  exact (write_u8_unambiguous trivial trivial h).1

/-- The tag each kind of mutation starts with. -/
def mutation_tag : ProjectionMutation → UInt8
  | .Put _ _ => 1
  | .Delete _ => 2
  | .Clear => 3
  | .Replace _ => 4

/-- A mutation's first byte is its tag. -/
theorem digest_mutation_tag (m : ProjectionMutation) :
    ∃ rest : Writes, digest_mutation m = write_u8 (mutation_tag m) ++ rest := by
  cases m <;> simp only [digest_mutation, mutation_tag, List.append_assoc]
  · exact ⟨_, rfl⟩
  · exact ⟨_, rfl⟩
  · exact ⟨[], (List.append_nil _).symm⟩
  · exact ⟨_, rfl⟩

/-- **A mutation can be read off what begins with it**: its tag tells the kind, and for each kind
its fields follow in order. -/
theorem digest_mutation_unambiguous :
    Unambiguous ProjectionMutation.Sized fun m => (digest_mutation m).flatten := by
  intro a b ha hb x y h
  have htag : mutation_tag a = mutation_tag b := tag_eq_of_writes digest_mutation_tag h
  -- The tag decides the constructor; the fields are then read one after the other.
  cases a <;> cases b <;> simp only [mutation_tag] at htag <;>
    simp only [digest_mutation, List.flatten_append, List.append_assoc] at h <;>
    have h₀ := (write_u8_unambiguous trivial trivial h).2
  case Put.Put =>
    obtain ⟨hkey, h₁⟩ := write_bytes_unambiguous ha.1 hb.1 h₀
    obtain ⟨hvalue, h₂⟩ := write_bytes_unambiguous ha.2 hb.2 h₁
    exact ⟨by rw [hkey, hvalue], h₂⟩
  case Delete.Delete =>
    obtain ⟨hkey, h₁⟩ := write_bytes_unambiguous ha hb h₀
    exact ⟨by rw [hkey], h₁⟩
  case Clear.Clear => exact ⟨rfl, h₀⟩
  case Replace.Replace entries entries' =>
    obtain ⟨hentries, h₁⟩ := read_counted entry_unambiguous ha hb h₀
    exact ⟨by rw [hentries], h₁⟩
  all_goals exact absurd htag (by decide)

/-- The tag each kind of operation starts with. -/
def operation_tag : Operation → UInt8
  | .AppendEvent _ => 1
  | .ProjectionPatch _ => 2
  | .EnqueueJob _ => 3
  | .AckJob _ => 4
  | .FailJob _ => 5
  | .CancelJob _ => 6
  | .ResolveJob _ => 7
  | .ExtendLease _ => 8

/-- An operation's first byte is its tag. -/
theorem digest_operation_tag (op : Operation) :
    ∃ rest : Writes, digest_operation op = write_u8 (operation_tag op) ++ rest := by
  cases op <;> exact ⟨_, by simp only [digest_operation, operation_tag, List.append_assoc]; rfl⟩

/-- The byte written for an effect mode names it. -/
theorem effect_mode_inj {m m' : EffectMode}
    (h : UInt8.ofNat m.encode = UInt8.ofNat m'.encode) : m = m' := by
  revert h
  cases m <;> cases m' <;> decide

/-- Different resolutions have different codes. -/
theorem resolution_code_inj {r r' : Resolution} (h : resolution_code r = resolution_code r') :
    r = r' := by
  revert h
  cases r <;> cases r' <;> decide

/-! One lemma for each kind of operation: the tag is read off, and then field follows field. -/

/-- The fields of an event, in order. -/
theorem append_event_unambiguous : Unambiguous (fun e => (Operation.AppendEvent e).Sized)
    fun e => (digest_operation (.AppendEvent e)).flatten := by
  intro e e' ha hb x y h
  simp only [digest_operation, List.flatten_append, List.append_assoc] at h
  have h₀ := (write_u8_unambiguous trivial trivial h).2
  -- The schema version is widened to eight bytes, which loses nothing.
  obtain ⟨hs, ht, hp, hm⟩ := ha
  obtain ⟨hs', ht', hp', hm'⟩ := hb
  obtain ⟨e₁, h₁⟩ := write_id_unambiguous trivial trivial h₀
  obtain ⟨e₂, h₂⟩ := write_str_unambiguous hs hs' h₁
  obtain ⟨e₃, h₃⟩ := write_str_unambiguous ht ht' h₂
  obtain ⟨e₄, h₄⟩ := write_u64_unambiguous trivial trivial h₃
  obtain ⟨e₅, h₅⟩ := write_i64_unambiguous trivial trivial h₄
  obtain ⟨e₆, h₆⟩ := write_opt_id_unambiguous trivial trivial h₅
  obtain ⟨e₇, h₇⟩ := write_opt_id_unambiguous trivial trivial h₆
  obtain ⟨e₈, h₈⟩ := write_bytes_unambiguous hp hp' h₇
  obtain ⟨e₉, h₉⟩ := write_bytes_unambiguous hm hm' h₈
  cases e
  cases e'
  simp only at e₁ e₂ e₃ e₄ e₅ e₆ e₇ e₈ e₉
  exact ⟨by rw [e₁, e₂, e₃, UInt32.toUInt64_inj.mp e₄, e₅, e₆, e₇, e₈, e₉], h₉⟩

/-- Those of a patch, whose mutations are counted. -/
theorem projection_patch_unambiguous : Unambiguous (fun p => (Operation.ProjectionPatch p).Sized)
    fun p => (digest_operation (.ProjectionPatch p)).flatten := by
  intro p p' ha hb x y h
  simp only [digest_operation, List.flatten_append, List.append_assoc] at h
  have h₀ := (write_u8_unambiguous trivial trivial h).2
  obtain ⟨e₁, h₁⟩ := write_str_unambiguous ha.1 hb.1 h₀
  obtain ⟨e₂, h₂⟩ := write_u64_unambiguous trivial trivial h₁
  obtain ⟨e₃, h₃⟩ := write_u64_unambiguous trivial trivial h₂
  obtain ⟨e₄, h₄⟩ := read_counted digest_mutation_unambiguous ha.2 hb.2 h₃
  cases p
  cases p'
  simp only at e₁ e₂ e₃ e₄
  exact ⟨by rw [e₁, e₂, e₃, e₄], h₄⟩

/-- Those of a job. -/
theorem enqueue_job_unambiguous : Unambiguous (fun j => (Operation.EnqueueJob j).Sized)
    fun j => (digest_operation (.EnqueueJob j)).flatten := by
  intro j j' ha hb x y h
  simp only [digest_operation, List.flatten_append, List.append_assoc] at h
  have h₀ := (write_u8_unambiguous trivial trivial h).2
  obtain ⟨hq, hk, hp, hi⟩ := ha
  obtain ⟨hq', hk', hp', hi'⟩ := hb
  obtain ⟨e₁, h₁⟩ := write_id_unambiguous trivial trivial h₀
  obtain ⟨e₂, h₂⟩ := write_str_unambiguous hq hq' h₁
  obtain ⟨e₃, h₃⟩ := write_str_unambiguous hk hk' h₂
  obtain ⟨e₄, h₄⟩ := write_bytes_unambiguous hp hp' h₃
  obtain ⟨e₅, h₅⟩ := write_i64_unambiguous trivial trivial h₄
  obtain ⟨e₆, h₆⟩ := write_u64_unambiguous trivial trivial h₅
  obtain ⟨e₇, h₇⟩ := write_u8_unambiguous trivial trivial h₆
  obtain ⟨e₈, h₈⟩ := write_opt_unambiguous write_str_unambiguous hi hi' h₇
  cases j
  cases j'
  simp only at e₁ e₂ e₃ e₄ e₅ e₆ e₇ e₈
  exact ⟨by rw [e₁, e₂, e₃, e₄, e₅, UInt32.toUInt64_inj.mp e₆, effect_mode_inj e₇, e₈], h₈⟩

/-- Those of an acknowledgement. -/
theorem ack_job_unambiguous : Unambiguous (fun a => (Operation.AckJob a).Sized)
    fun a => (digest_operation (.AckJob a)).flatten := by
  intro a a' ha hb x y h
  simp only [digest_operation, List.flatten_append, List.append_assoc] at h
  have h₀ := (write_u8_unambiguous trivial trivial h).2
  obtain ⟨e₁, h₁⟩ := write_id_unambiguous trivial trivial h₀
  obtain ⟨e₂, h₂⟩ := write_id_unambiguous trivial trivial h₁
  obtain ⟨e₃, h₃⟩ := write_opt_unambiguous write_bytes_unambiguous ha hb h₂
  cases a
  cases a'
  simp only at e₁ e₂ e₃
  exact ⟨by rw [e₁, e₂, e₃], h₃⟩

/-- Those of a failure. -/
theorem fail_job_unambiguous : Unambiguous (fun f => (Operation.FailJob f).Sized)
    fun f => (digest_operation (.FailJob f)).flatten := by
  intro f f' ha hb x y h
  simp only [digest_operation, List.flatten_append, List.append_assoc] at h
  have h₀ := (write_u8_unambiguous trivial trivial h).2
  obtain ⟨e₁, h₁⟩ := write_id_unambiguous trivial trivial h₀
  obtain ⟨e₂, h₂⟩ := write_id_unambiguous trivial trivial h₁
  obtain ⟨e₃, h₃⟩ := write_str_unambiguous ha hb h₂
  obtain ⟨e₄, h₄⟩ := write_opt_unambiguous write_i64_unambiguous
    (fun _ _ => trivial) (fun _ _ => trivial) h₃
  cases f
  cases f'
  simp only at e₁ e₂ e₃ e₄
  exact ⟨by rw [e₁, e₂, e₃, e₄], h₄⟩

/-- Those of a cancellation. -/
theorem cancel_job_unambiguous : Unambiguous (fun c => (Operation.CancelJob c).Sized)
    fun c => (digest_operation (.CancelJob c)).flatten := by
  intro c c' _ _ x y h
  simp only [digest_operation, List.flatten_append, List.append_assoc] at h
  have h₀ := (write_u8_unambiguous trivial trivial h).2
  obtain ⟨e₁, h₁⟩ := write_id_unambiguous trivial trivial h₀
  obtain ⟨e₂, h₂⟩ := write_opt_id_unambiguous trivial trivial h₁
  cases c
  cases c'
  simp only at e₁ e₂
  exact ⟨by rw [e₁, e₂], h₂⟩

/-- Those of a resolution. -/
theorem resolve_job_unambiguous : Unambiguous (fun r => (Operation.ResolveJob r).Sized)
    fun r => (digest_operation (.ResolveJob r)).flatten := by
  intro r r' _ _ x y h
  simp only [digest_operation, List.flatten_append, List.append_assoc] at h
  have h₀ := (write_u8_unambiguous trivial trivial h).2
  obtain ⟨e₁, h₁⟩ := write_id_unambiguous trivial trivial h₀
  obtain ⟨e₂, h₂⟩ := write_u8_unambiguous trivial trivial h₁
  cases r
  cases r'
  simp only at e₁ e₂
  exact ⟨by rw [e₁, resolution_code_inj e₂], h₂⟩

/-- Those of an extension. -/
theorem extend_lease_unambiguous : Unambiguous (fun e => (Operation.ExtendLease e).Sized)
    fun e => (digest_operation (.ExtendLease e)).flatten := by
  intro e e' _ _ x y h
  simp only [digest_operation, List.flatten_append, List.append_assoc] at h
  have h₀ := (write_u8_unambiguous trivial trivial h).2
  obtain ⟨e₁, h₁⟩ := write_id_unambiguous trivial trivial h₀
  obtain ⟨e₂, h₂⟩ := write_id_unambiguous trivial trivial h₁
  obtain ⟨e₃, h₃⟩ := write_i64_unambiguous trivial trivial h₂
  cases e
  cases e'
  simp only at e₁ e₂ e₃
  exact ⟨by rw [e₁, e₂, e₃], h₃⟩

/-- **An operation can be read off what begins with it.** -/
theorem digest_operation_unambiguous :
    Unambiguous Operation.Sized fun op => (digest_operation op).flatten := by
  intro a b ha hb x y h
  -- The tag comes first, so the operations are of one kind.
  have htag : operation_tag a = operation_tag b := tag_eq_of_writes digest_operation_tag h
  cases a <;> cases b <;> simp only [operation_tag] at htag
  case AppendEvent.AppendEvent =>
    exact (append_event_unambiguous ha hb h).imp_left (congrArg Operation.AppendEvent)
  case ProjectionPatch.ProjectionPatch =>
    exact (projection_patch_unambiguous ha hb h).imp_left (congrArg Operation.ProjectionPatch)
  case EnqueueJob.EnqueueJob =>
    exact (enqueue_job_unambiguous ha hb h).imp_left (congrArg Operation.EnqueueJob)
  case AckJob.AckJob =>
    exact (ack_job_unambiguous ha hb h).imp_left (congrArg Operation.AckJob)
  case FailJob.FailJob =>
    exact (fail_job_unambiguous ha hb h).imp_left (congrArg Operation.FailJob)
  case CancelJob.CancelJob =>
    exact (cancel_job_unambiguous ha hb h).imp_left (congrArg Operation.CancelJob)
  case ResolveJob.ResolveJob =>
    exact (resolve_job_unambiguous ha hb h).imp_left (congrArg Operation.ResolveJob)
  case ExtendLease.ExtendLease =>
    exact (extend_lease_unambiguous ha hb h).imp_left (congrArg Operation.ExtendLease)
  all_goals exact absurd htag (by decide)

/-- An expected version. -/
theorem expectation_unambiguous :
    Unambiguous (fun e : ExpectedStreamVersion => Fits (as_bytes e.stream_id).length)
      fun e => (write_str e.stream_id ++ write_u64 e.version).flatten := by
  rintro ⟨s, v⟩ ⟨s', v'⟩ hs hs' x y h
  simp only [List.flatten_append, List.append_assoc] at h
  obtain ⟨hstream, h₁⟩ := write_str_unambiguous hs hs' h
  obtain ⟨hversion, h₂⟩ := write_u64_unambiguous trivial trivial h₁
  cases hstream
  cases hversion
  exact ⟨rfl, h₂⟩

/-- **The encoding determines the content**, also from the front of a longer
sequence: no encoding is a proper prefix of another. -/
theorem CommitBatch.encoding_read {a b : CommitBatch} (ha : a.Sized) (hb : b.Sized)
    {x y : Bytes} (h : a.encoding ++ x = b.encoding ++ y) : SameContent a b ∧ x = y := by
  simp only [encoding, request_chunks, List.flatten_append, List.append_assoc] at h
  obtain ⟨e₁, h₁⟩ := write_i64_unambiguous trivial trivial h
  obtain ⟨e₂, h₂⟩ := write_opt_id_unambiguous trivial trivial h₁
  obtain ⟨e₃, h₃⟩ := write_bytes_unambiguous ha.metadata hb.metadata h₂
  obtain ⟨e₄, h₄⟩ := read_counted expectation_unambiguous
    ⟨ha.expectations, ha.stream_ids⟩ ⟨hb.expectations, hb.stream_ids⟩ h₃
  obtain ⟨e₅, h₅⟩ := read_counted digest_operation_unambiguous
    ⟨ha.operations, ha.operation⟩ ⟨hb.operations, hb.operation⟩ h₄
  exact ⟨⟨e₁, e₂, e₃, e₄, e₅⟩, h₅⟩

/-- The encoding reads nothing but the content. -/
theorem CommitBatch.SameContent.encoding {a b : CommitBatch} (h : SameContent a b) :
    a.encoding = b.encoding := by
  obtain ⟨htime, hcorrelation, hmetadata, hexpected, hoperations⟩ := h
  rw [CommitBatch.encoding, request_chunks, htime, hcorrelation, hmetadata, hexpected, hoperations]
  rfl

/-- **The encoding is canonical.** Two batches are encoded alike exactly when they
agree on everything but the transaction id, and no encoding is a proper prefix of
another. -/
theorem encoding_canonical {a b : CommitBatch} (ha : a.Sized) (hb : b.Sized) :
    (a.encoding = b.encoding ↔ a.SameContent b)
      ∧ ¬ (a.encoding <+: b.encoding ∧ a.encoding ≠ b.encoding) := by
  refine ⟨⟨?_, CommitBatch.SameContent.encoding⟩, ?_⟩
  · intro h
    have hread : a.encoding ++ [] = b.encoding ++ [] := congrArg (· ++ []) h
    exact (CommitBatch.encoding_read ha hb hread).1
  · rintro ⟨⟨rest, hrest⟩, hne⟩
    have hread : a.encoding ++ rest = b.encoding ++ [] := by
      rw [hrest, List.append_nil]
    obtain rfl := (CommitBatch.encoding_read ha hb hread).2
    rw [List.append_nil] at hrest
    exact hne hrest

/-- Two expectations whose stream ids read alike when run together. -/
def boundary_batch (first second : String) : CommitBatch :=
  ⟨Id.ofByte 1, 0, none, [], [⟨first, 1⟩, ⟨second, 1⟩], []⟩

/-- Length prefixes keep the fields apart. -/
theorem encoding_distinguishes_field_boundaries :
    (boundary_batch "ab" "c").encoding ≠ (boundary_batch "a" "bc").encoding := by
  have hsized : ∀ first second, Fits (as_bytes first).length → Fits (as_bytes second).length →
      (boundary_batch first second).Sized := by
    intro first second hfirst hsecond
    have hnone : Fits 0 := by decide
    have htwo : Fits 2 := by decide
    refine ⟨hnone, htwo, ?_, hnone, by simp [boundary_batch]⟩
    simp [boundary_batch, hfirst, hsecond]
  intro h
  have hsame := (encoding_canonical (hsized "ab" "c" (by decide) (by decide))
    (hsized "a" "bc" (by decide) (by decide))).1.mp h
  exact absurd hsame (by decide)

end MiniSqlite
