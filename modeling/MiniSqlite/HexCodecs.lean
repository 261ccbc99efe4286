/-
The hex codecs (`main.rs`, `id.rs`, `store/ops.rs`).

Hex is written by three functions: the CLI's `hex`, `Id::to_hex` and the `hex` of the
diagnostic export. It is read by two: the CLI's `parse_hex`, which casts each byte to a
character and asks for its digit, and `Id::from_hex`, which matches ranges of bytes. All five
are the codec of one alphabet, of the digits of either case with the lower case written.

The readers go by the bytes of a string. A character that is not ASCII has bytes above 0x7f
only, and as a Latin-1 character none of these is a digit.
-/
import MiniSqlite.Diagnostics
import MiniSqlite.Lib.Base16
import MiniSqlite.Lib.Blocks

set_option autoImplicit false

namespace MiniSqlite

open Base16 Blocks

/-! ## `id.rs` -/

/-- Error returned when parsing a malformed hexadecimal ID string. -/
structure InvalidId where
deriving DecidableEq

namespace Id

/-- `hex_value`: upper-case digits have values too. -/
def hex_value (b : UInt8) : Option UInt8 :=
  if 48 ≤ b ∧ b ≤ 57 then some (b - 48)
  else if 97 ≤ b ∧ b ≤ 102 then some (b - 97 + 10)
  else if 65 ≤ b ∧ b ≤ 70 then some (b - 65 + 10)
  else none

/-- `bytes[i] = b`. -/
def set (id : Id) (i : ℕ) (b : UInt8) : Id := ⟨id.bytes.set i b, by rw [List.length_set, id.size]⟩

/-- One chunk of `from_hex`. An exact chunk has both bytes. -/
def read_chunk (id : Id) (chunk : Bytes × ℕ) : Except InvalidId Id :=
  match hex_value (chunk.1.getD 0 0), hex_value (chunk.1.getD 1 0) with
  | some high, some low => .ok (id.set chunk.2 ((high <<< 4) ||| low))
  | _, _ => .error ⟨⟩

/-- `Id::from_hex`: 32 characters, all of them digits. -/
def from_hex (s : String) : Except InvalidId Id :=
  if s.utf8ByteSize ≠ 32 then .error ⟨⟩
  -- `chunks_exact(2)`, with `enumerate`.
  else (blocks 2 (as_bytes s)).zipIdx.foldlM read_chunk ZERO

end Id

/-! ## `main.rs` -/

/-- A CLI failure carrying its exit-code class. -/
inductive CliError where
  /-- Bad arguments or unknown command (exit 2). -/
  | Usage (message : String)
  /-- The store, or a requested entity within it, does not exist (exit 4). -/
  | NotFound (message : String)
  /-- Verification completed and reported findings (exit 3). -/
  | Findings (n : ℕ)
  /-- Any other operational failure (exit 1). -/
  | Op (message : String)
deriving DecidableEq

namespace Cli

/-- `char::to_digit`: the digits, and the letters of either case from ten on. -/
def to_digit (c : Char) (radix : UInt32) : Option UInt32 :=
  let digit :=
    if '0' ≤ c ∧ c ≤ '9' then some (c.val - 48)
    else if 'a' ≤ c ∧ c ≤ 'z' then some (c.val - 97 + 10)
    else if 'A' ≤ c ∧ c ≤ 'Z' then some (c.val - 65 + 10)
    else none
  digit.filter (· < radix)

/-- `slice::chunks`: the whole blocks, and what is left as a shorter one. -/
def chunks (n : ℕ) (xs : Bytes) : List Bytes :=
  blocks n xs ++ if (residue n xs).isEmpty then [] else [residue n xs]

/-- One pair of `parse_hex`. -/
def read_pair (raw what : String) (out : Bytes) (pair : Bytes) : Except CliError Bytes :=
  -- `*b as char` is the Latin-1 character of the byte.
  let digit (b : UInt8) := to_digit (Char.ofNat b.toNat) 16
  match pair[0]?.bind digit, pair[1]?.bind digit with
  | some hi, some lo => .ok (out ++ [(hi.toUInt8 <<< 4) ||| lo.toUInt8])
  | _, _ => .error (.Usage s!"invalid {what} hex: {raw}")

/-- `parse_hex` of the command line: digits in pairs. -/
def parse_hex (raw what : String) : Except CliError Bytes :=
  (chunks 2 (as_bytes raw)).foldlM (read_pair raw what) []

/-- `const HEX: &[u8; 16]`. -/
def HEX : List Char := "0123456789abcdef".toList

/-- `hex` of the command line. -/
def hex (bytes : Bytes) : String :=
  bytes.foldl (fun (s : String) (b : UInt8) =>
    (s.push (HEX.getD (b >>> 4).toNat '0')).push (HEX.getD (b &&& 0xf).toNat '0')) ""

end Cli

/-! ## The alphabet -/

/-- A value is a nibble. -/
theorem hex_value_lt {b n : UInt8} (h : Id.hex_value b = some n) : n.toNat < 16 := by
  have hall : ∀ b, ∀ n ∈ Id.hex_value b, n.toNat < 16 := by
    apply forall_byte
    decide +kernel
  exact hall b n h

/-- Each nibble's digit has it as its value. -/
theorem hex_value_digit {n : UInt8} (h : n.toNat < 16) :
    Id.hex_value (UInt8.ofNat (Id.hex_digit n).toNat) = some n := by
  revert h
  apply forall_nibble
  decide

/-- The bytes of hex digits, of either case; the lower case is written. -/
def hex_alphabet : Alphabet UInt8 where
  value := Id.hex_value
  digit n := UInt8.ofNat (Id.hex_digit n).toNat
  value_lt := hex_value_lt
  value_digit := hex_value_digit

/-- **A byte cast to a character is the digit it is as a byte.** No other Latin-1 character is a
digit of base sixteen. -/
theorem to_digit_latin (b : UInt8) :
    Cli.to_digit (Char.ofNat b.toNat) 16 = (hex_alphabet.value b).map UInt8.toUInt32 := by
  revert b
  apply forall_byte
  decide +kernel

/-! ## The readers -/

/-- Two bytes are the first block of two. -/
theorem blocks_pair (a b : UInt8) (rest : Bytes) :
    blocks 2 (a :: b :: rest) = [a, b] :: blocks 2 rest :=
  blocks_step (by decide) (by simp)

/-- `chunks(2)` of one byte is a chunk of one. -/
theorem chunks_one (a : UInt8) : Cli.chunks 2 [a] = [[a]] := by
  have hshort : [a].length < 2 := by simp
  rw [Cli.chunks, blocks_short hshort, residue_short hshort]
  rfl

/-- Otherwise the first two are a chunk. -/
theorem chunks_pair (a b : UInt8) (rest : Bytes) :
    Cli.chunks 2 (a :: b :: rest) = [a, b] :: Cli.chunks 2 rest := by
  have hresidue : residue 2 (a :: b :: rest) = residue 2 rest := residue_step (by decide) (by simp)
  rw [Cli.chunks, blocks_pair, hresidue]
  rfl

section Loop

variable (raw what : String)

/-- An odd byte at the end is refused, be it a digit or not. -/
theorem read_pair_one (out : Bytes) (a : UInt8) :
    Cli.read_pair raw what out [a] = .error (.Usage s!"invalid {what} hex: {raw}") := by
  simp [Cli.read_pair]

/-- A chunk of two digits is one byte. -/
theorem read_pair_two (out : Bytes) (a b : UInt8) : Cli.read_pair raw what out [a, b]
    = match hex_alphabet.value a, hex_alphabet.value b with
      | some high, some low => .ok (out ++ [(high <<< 4) ||| low])
      | _, _ => .error (.Usage s!"invalid {what} hex: {raw}") := by
  simp only [Cli.read_pair, List.getElem?_cons_zero, List.getElem?_cons_succ, Option.bind_some,
    to_digit_latin]
  cases hex_alphabet.value a <;> cases hex_alphabet.value b <;> simp

/-- The answer of the loop, by pairs. -/
theorem foldlM_read_pair (xs out : Bytes) : (Cli.chunks 2 xs).foldlM (Cli.read_pair raw what) out
    = (hex_alphabet.decode xs).elim (.error (.Usage s!"invalid {what} hex: {raw}"))
      fun bytes => .ok (out ++ bytes) := by
  match xs with
  | [] => simp [Cli.chunks, blocks_short, residue_short, Alphabet.decode]; rfl
  | [a] =>
    rw [chunks_one, List.foldlM_cons, read_pair_one]
    rfl
  | a :: b :: rest =>
    rw [chunks_pair, List.foldlM_cons, read_pair_two, Alphabet.decode]
    -- A pair that is no byte ends the loop; else the rest is read behind it.
    cases hex_alphabet.value a with
    | none => rfl
    | some high =>
      cases hex_alphabet.value b with
      | none => rfl
      | some low =>
        have ih := foldlM_read_pair rest (out ++ [(high <<< 4) ||| low])
        simp only [bind, Except.bind, ih]
        cases hex_alphabet.decode rest <;> simp

end Loop

/-- **`parse_hex` is the decoder**, with its error. -/
theorem parse_hex_eq (raw what : String) : Cli.parse_hex raw what
    = (hex_alphabet.decode (as_bytes raw)).elim
        (.error (.Usage s!"invalid {what} hex: {raw}")) .ok :=
  foldlM_read_pair raw what (as_bytes raw) []

/-- **`parse_hex` reads what the alphabet reads.** -/
theorem parse_hex_iff (raw what : String) (bytes : Bytes) : Cli.parse_hex raw what = .ok bytes ↔
    hex_alphabet.decode (as_bytes raw) = some bytes := by
  rw [parse_hex_eq]
  cases hex_alphabet.decode (as_bytes raw) <;> simp

namespace Id

/-- `id.0[i] = b`. -/
theorem set_bytes (id : Id) (i : ℕ) (b : UInt8) : (id.set i b).bytes = id.bytes.set i b := rfl

/-- One chunk, as a pair. -/
theorem read_chunk_two (id : Id) (a b : UInt8) (i : ℕ) : read_chunk id ([a, b], i)
    = match hex_alphabet.value a, hex_alphabet.value b with
      | some high, some low => .ok (id.set i ((high <<< 4) ||| low))
      | _, _ => .error ⟨⟩ := rfl

/-- The answer of the loop from byte `k` on: the bytes before stay as they are. -/
theorem foldlM_read_chunk (xs : Bytes) (k : ℕ) (id : Id) (heven : xs.length % 2 = 0)
    (hroom : k + xs.length / 2 ≤ 16) :
    (((blocks 2 xs).zipIdx k).foldlM read_chunk id).map Id.bytes
      = (hex_alphabet.decode xs).elim (.error ⟨⟩) fun bytes =>
        .ok (id.bytes.take k ++ bytes ++ id.bytes.drop (k + bytes.length)) := by
  match xs with
  | [] => simp [blocks_short, Alphabet.decode]; rfl
  | [a] => simp at heven
  | a :: b :: rest =>
    simp only [List.length_cons] at heven hroom
    rw [blocks_pair, List.zipIdx_cons, List.foldlM_cons, read_chunk_two, Alphabet.decode]
    cases hex_alphabet.value a with
    | none => rfl
    | some high =>
      cases hex_alphabet.value b with
      | none => rfl
      | some low =>
        have ih := foldlM_read_chunk rest (k + 1) (id.set k ((high <<< 4) ||| low)) (by omega)
          (by omega)
        have hk : k < id.bytes.length := by
          rw [id.size]
          omega
        simp only [bind, Except.bind, ih, set_bytes]
        cases hrest : hex_alphabet.decode rest with
        | none => rfl
        | some bytes =>
          -- The byte that is set is the first of the bytes read, and none behind it is touched.
          have htake : (id.bytes.set k ((high <<< 4) ||| low)).take (k + 1)
              = id.bytes.take k ++ [(high <<< 4) ||| low] := by
            rw [List.take_succ_eq_append_getElem (by simpa using hk), List.getElem_set_self,
              List.take_set_of_le (le_refl k)]
          have hdrop : (id.bytes.set k ((high <<< 4) ||| low)).drop (k + 1 + bytes.length)
              = id.bytes.drop (k + (bytes.length + 1)) := by
            rw [List.drop_set_of_lt (by omega), Nat.add_assoc, Nat.add_comm 1]
          simp only [Option.elim_some, htake, hdrop, List.length_cons, List.append_assoc,
            List.singleton_append]

/-- `s.len()`. -/
theorem length_as_bytes (s : String) : (as_bytes s).length = s.utf8ByteSize := by
  rw [as_bytes]
  simp

/-- **`from_hex` reads what the alphabet reads of 32 bytes.** -/
theorem from_hex_iff (s : String) (x : Id) : from_hex s = .ok x ↔
    s.utf8ByteSize = 32 ∧ hex_alphabet.decode (as_bytes s) = some x.bytes := by
  by_cases hsize : s.utf8ByteSize = 32
  · have hlength : (as_bytes s).length = 32 := by rw [length_as_bytes, hsize]
    have hloop := foldlM_read_chunk (as_bytes s) 0 ZERO (by omega) (by omega)
    rw [from_hex, if_neg (not_not_intro hsize)]
    generalize (blocks 2 (as_bytes s)).zipIdx.foldlM read_chunk ZERO = answer at hloop
    cases hdecode : hex_alphabet.decode (as_bytes s) with
    | none =>
      rw [hdecode] at hloop
      cases answer with
      | error e => simp
      | ok y => cases hloop
    | some bytes =>
      -- Sixteen bytes, so nothing of the zeros stays.
      have hbytes : bytes.length = 16 := by
        have := Alphabet.length_of_decode hdecode
        omega
      have hnone : ZERO.bytes.drop (0 + bytes.length) = [] := by
        rw [hbytes]
        rfl
      rw [hdecode, Option.elim_some, hnone, List.take_zero, List.nil_append,
        List.append_nil] at hloop
      cases answer with
      | error e => cases hloop
      | ok y =>
        obtain rfl : y.bytes = bytes := Except.ok.inj hloop
        simp [hsize, bytes_inj]
  · rw [from_hex, if_pos hsize]
    simp [hsize]

end Id

/-! ## Characters and bytes -/

/-- `char::is_ascii_hexdigit`. -/
def is_ascii_hexdigit (c : Char) : Bool :=
  ('0' ≤ c ∧ c ≤ '9') ∨ ('a' ≤ c ∧ c ≤ 'f') ∨ ('A' ≤ c ∧ c ≤ 'F')

/-- The bytes of a string, character by character. -/
theorem as_bytes_eq (s : String) : as_bytes s = s.toList.flatMap String.utf8EncodeChar := by
  rw [as_bytes, ← String.utf8Encode_toList, List.utf8Encode]
  simp

/-- What holds of the first 128 characters holds of every ASCII character. -/
theorem forall_ascii {P : Char → Prop} (h : ∀ k < 128, P (Char.ofNat k)) {c : Char}
    (hc : c.toNat < 128) : P c := by
  have hascii := h c.toNat hc
  rwa [Char.ofNat_toNat] at hascii

/-- The first byte of a character that is not ASCII. -/
theorem high_byte {c : Char} (h : 128 ≤ c.toNat) :
    ∃ b ∈ String.utf8EncodeChar c, 128 ≤ b.toNat := by
  have hval : c.val.toNat = c.toNat := rfl
  unfold String.utf8EncodeChar
  rw [hval]
  dsimp only
  rw [if_neg (by omega)]
  split
  · exact ⟨_, List.mem_cons_self, by simp; omega⟩
  · split
    · exact ⟨_, List.mem_cons_self, by simp; omega⟩
    · exact ⟨_, List.mem_cons_self, by simp; omega⟩

/-- A byte of a non-ASCII character is no digit. -/
theorem hex_value_high {b : UInt8} (h : 128 ≤ b.toNat) : hex_alphabet.value b = none := by
  have hall : ∀ b : UInt8, 128 ≤ b.toNat → hex_alphabet.value b = none := by
    apply forall_byte
    decide +kernel
  exact hall b h

/-- A digit is ASCII. -/
theorem ascii_of_hexdigit {c : Char} (h : is_ascii_hexdigit c = true) : c.toNat < 128 := by
  have hle : ∀ {d : Char}, c ≤ d → c.toNat ≤ d.toNat := fun hcd => UInt32.le_iff_toNat_le.mp hcd
  simp only [is_ascii_hexdigit, decide_eq_true_eq] at h
  rcases h with h | h | h
  all_goals
    have hc := hle h.2
    simp at hc
    omega

/-- **The bytes of a character are hex digits iff it is one.** -/
theorem encoded_isSome_iff (c : Char) :
    (∀ b ∈ String.utf8EncodeChar c, (hex_alphabet.value b).isSome) ↔ is_ascii_hexdigit c := by
  by_cases hascii : c.toNat < 128
  · have hall : ((String.utf8EncodeChar c).all fun b => (hex_alphabet.value b).isSome)
        = is_ascii_hexdigit c := by
      apply forall_ascii (P := fun c => ((String.utf8EncodeChar c).all fun b =>
        (hex_alphabet.value b).isSome) = is_ascii_hexdigit c) _ hascii
      decide +kernel
    rw [← hall, List.all_eq_true]
  · -- Neither side: the first byte is no digit.
    obtain ⟨b, hb, hhigh⟩ := high_byte (not_lt.mp hascii)
    constructor
    · intro hbytes
      have hsome := hbytes b hb
      rw [hex_value_high hhigh] at hsome
      cases hsome
    · exact fun hdigit => absurd (ascii_of_hexdigit hdigit) hascii

/-- A digit is written back in lower case. -/
theorem written_lower {c : Char} (h : is_ascii_hexdigit c = true) :
    (String.utf8EncodeChar c).map hex_alphabet.written = String.utf8EncodeChar c.toLower := by
  have hall := forall_ascii (P := fun c => is_ascii_hexdigit c = true →
    (String.utf8EncodeChar c).map hex_alphabet.written = String.utf8EncodeChar c.toLower)
    (by decide +kernel) (ascii_of_hexdigit h)
  exact hall h

/-- The bytes are digits exactly if the characters are. -/
theorem as_bytes_isSome_iff (s : String) :
    (∀ b ∈ as_bytes s, (hex_alphabet.value b).isSome) ↔ ∀ c ∈ s.toList, is_ascii_hexdigit c := by
  simp only [as_bytes_eq, List.mem_flatMap, ← encoded_isSome_iff]
  exact ⟨fun h c hc b hb => h b ⟨c, hc, hb⟩, fun h b ⟨c, hc, hb⟩ => h c hc b hb⟩

/-- Hex digits are lower-cased byte by byte. -/
theorem as_bytes_toLower {s : String} (h : ∀ c ∈ s.toList, is_ascii_hexdigit c = true) :
    (as_bytes s).map hex_alphabet.written = as_bytes s.toLower := by
  have hlower : s.toLower.toList = s.toList.map Char.toLower := String.toList_map
  rw [as_bytes_eq, as_bytes_eq, hlower, List.map_flatMap, List.flatMap_map]
  exact List.flatMap_congr fun c hc => written_lower (h c hc)

/-! ## The writers -/

/-- What `hex` writes are the digits of the alphabet. -/
theorem as_bytes_hex (bytes : Bytes) : as_bytes (hex bytes) = hex_alphabet.encode bytes := by
  have hdigit : ∀ {n : UInt8}, n.toNat < 16 →
      String.utf8EncodeChar (Id.hex_digit n) = [hex_alphabet.digit n] := by
    apply forall_nibble
    decide +kernel
  rw [as_bytes_eq, hex, String.toList_ofList, List.flatMap_assoc, Alphabet.encode]
  apply List.flatMap_congr
  intro b _
  simp [hdigit (high_lt b), hdigit (low_lt b)]

namespace Cli

/-- The two `hex` functions of the crate agree. -/
theorem hex_eq (bytes : Bytes) : hex bytes = MiniSqlite.hex bytes := by
  have hdigit : ∀ {n : UInt8}, n.toNat < 16 → HEX.getD n.toNat '0' = Id.hex_digit n := by
    apply forall_nibble
    decide
  have hloop : ∀ (bytes : Bytes) (out : String), (bytes.foldl (fun (s : String) (b : UInt8) =>
      (s.push (HEX.getD (b >>> 4).toNat '0')).push (HEX.getD (b &&& 0xf).toNat '0')) out).toList
        = out.toList ++ (MiniSqlite.hex bytes).toList := by
    intro bytes
    induction bytes with
    | nil =>
      intro out
      simp [toList_hex]
    | cons b bytes ih =>
      intro out
      rw [List.foldl_cons, ih, hdigit (high_lt b), hdigit (low_lt b)]
      simp [toList_hex]
  apply String.toList_inj.mp
  rw [hex, hloop, String.toList_empty, List.nil_append]

end Cli

/-- What is read of a string has digits only, and is written as the string in lower case. -/
theorem hex_of_decode {s : String} {bytes : Bytes}
    (h : hex_alphabet.decode (as_bytes s) = some bytes) : hex bytes = s.toLower := by
  have hsome : (hex_alphabet.decode (as_bytes s)).isSome := by rw [h, Option.isSome_some]
  have hbytes := ((Alphabet.decode_isSome_iff (as_bytes s)).mp hsome).2
  have hdigits := (as_bytes_isSome_iff s).mp hbytes
  apply as_bytes_inj
  rw [as_bytes_hex, Alphabet.encode_of_decode h, as_bytes_toLower hdigits]

/-- **The hex codecs agree.** What the CLI writes it reads back; it reads the strings of an even
number of hex digits and writes what it read in lower case. `Id::from_hex` reads those of length
32 and nothing else, as the CLI does, and the three writers write alike. -/
theorem hex_codecs :
    (∀ b what, Cli.parse_hex (Cli.hex b) what = .ok b) ∧
    (∀ s what, (∃ b, Cli.parse_hex s what = .ok b) ↔
      s.utf8ByteSize % 2 = 0 ∧ ∀ c ∈ s.toList, is_ascii_hexdigit c) ∧
    (∀ s what b, Cli.parse_hex s what = .ok b → Cli.hex b = s.toLower) ∧
    (∀ s what (x : Id), Id.from_hex s = .ok x ↔
      s.utf8ByteSize = 32 ∧ Cli.parse_hex s what = .ok x.bytes) ∧
    (∀ s (x : Id), Id.from_hex s = .ok x → x.to_hex = s.toLower) ∧
    (∀ x : Id, x.to_hex = Cli.hex x.bytes) ∧
    ∀ b, Cli.hex b = hex b := by
  have hto_hex : ∀ x : Id, x.to_hex = hex x.bytes := fun _ => rfl
  refine ⟨?_, ?_, ?_, ?_, ?_, ?_, Cli.hex_eq⟩
  · intro b what
    rw [parse_hex_iff, Cli.hex_eq, as_bytes_hex]
    exact Alphabet.decode_encode b
  · intro s what
    simp only [parse_hex_iff, ← Option.isSome_iff_exists]
    rw [Alphabet.decode_isSome_iff, as_bytes_isSome_iff, Id.length_as_bytes]
  · intro s what b h
    rw [Cli.hex_eq]
    exact hex_of_decode ((parse_hex_iff s what b).mp h)
  · intro s what x
    rw [parse_hex_iff]
    exact Id.from_hex_iff s x
  · intro s x h
    rw [hto_hex]
    exact hex_of_decode ((Id.from_hex_iff s x).mp h).2
  · intro x
    rw [hto_hex, Cli.hex_eq]

end MiniSqlite
