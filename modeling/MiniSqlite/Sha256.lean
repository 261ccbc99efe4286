/-
`sha256.rs`: the in-crate SHA-256 (FIPS 180-4) behind the request digest.

The hasher is the source's: eight state words, a 64-byte buffer with its fill,
and the running length. The two `while` loops carry the number of turns they can
take as fuel: `update` consumes 64 bytes a turn, and `finish` pads at most one
buffer.
-/
import Mathlib.Data.Nat.Notation
import Mathlib.Data.UInt
import MiniSqlite.Types

set_option autoImplicit false

namespace MiniSqlite

/-- `to_be_bytes` of a value of `width` bytes. -/
def to_be_bytes : ℕ → ℕ → Bytes
  | 0, _ => []
  | width + 1, n => UInt8.ofNat (n / 256 ^ width) :: to_be_bytes width n

@[simp] theorem length_to_be_bytes (width n : ℕ) : (to_be_bytes width n).length = width := by
  induction width with
  | zero => rfl
  | succ width ih => simp [to_be_bytes, ih]

namespace Sha256

def K : List UInt32 := [
  0x428a2f98, 0x71374491, 0xb5c0fbcf, 0xe9b5dba5, 0x3956c25b, 0x59f111f1, 0x923f82a4, 0xab1c5ed5,
  0xd807aa98, 0x12835b01, 0x243185be, 0x550c7dc3, 0x72be5d74, 0x80deb1fe, 0x9bdc06a7, 0xc19bf174,
  0xe49b69c1, 0xefbe4786, 0x0fc19dc6, 0x240ca1cc, 0x2de92c6f, 0x4a7484aa, 0x5cb0a9dc, 0x76f988da,
  0x983e5152, 0xa831c66d, 0xb00327c8, 0xbf597fc7, 0xc6e00bf3, 0xd5a79147, 0x06ca6351, 0x14292967,
  0x27b70a85, 0x2e1b2138, 0x4d2c6dfc, 0x53380d13, 0x650a7354, 0x766a0abb, 0x81c2c92e, 0x92722c85,
  0xa2bfe8a1, 0xa81a664b, 0xc24b8b70, 0xc76c51a3, 0xd192e819, 0xd6990624, 0xf40e3585, 0x106aa070,
  0x19a4c116, 0x1e376c08, 0x2748774c, 0x34b0bcb5, 0x391c0cb3, 0x4ed8aa4a, 0x5b9cca4f, 0x682e6ff3,
  0x748f82ee, 0x78a5636f, 0x84c87814, 0x8cc70208, 0x90befffa, 0xa4506ceb, 0xbef9a3f7, 0xc67178f2]

/-- The eight working words `a … h`. -/
structure Words where
  a : UInt32
  b : UInt32
  c : UInt32
  d : UInt32
  e : UInt32
  f : UInt32
  g : UInt32
  h : UInt32
deriving DecidableEq

def H0 : Words where
  a := 0x6a09e667
  b := 0xbb67ae85
  c := 0x3c6ef372
  d := 0xa54ff53a
  e := 0x510e527f
  f := 0x9b05688c
  g := 0x1f83d9ab
  h := 0x5be0cd19

namespace Words

def toList (w : Words) : List UInt32 := [w.a, w.b, w.c, w.d, w.e, w.f, w.g, w.h]

/-- Word by word `wrapping_add`. -/
def add (v w : Words) : Words :=
  ⟨v.a + w.a, v.b + w.b, v.c + w.c, v.d + w.d, v.e + w.e, v.f + w.f, v.g + w.g, v.h + w.h⟩

end Words

def rotate_right (x : UInt32) (n : UInt32) : UInt32 := (x >>> n) ||| (x <<< (32 - n))

/-- `u32::from_be_bytes` of the `i`-th group of four bytes. -/
def word_at (block : Bytes) (i : ℕ) : UInt32 :=
  (block.getD (4 * i) 0).toUInt32 <<< 24 ||| (block.getD (4 * i + 1) 0).toUInt32 <<< 16 |||
    (block.getD (4 * i + 2) 0).toUInt32 <<< 8 ||| (block.getD (4 * i + 3) 0).toUInt32

/-- The next word of the message schedule, from the `i` words before it. -/
def schedule_word (w : List UInt32) (i : ℕ) : UInt32 :=
  let w15 := w.getD (i - 15) 0
  let w2 := w.getD (i - 2) 0
  let s0 := rotate_right w15 7 ^^^ rotate_right w15 18 ^^^ (w15 >>> 3)
  let s1 := rotate_right w2 17 ^^^ rotate_right w2 19 ^^^ (w2 >>> 10)
  w.getD (i - 16) 0 + s0 + w.getD (i - 7) 0 + s1

/-- The message schedule: sixteen words of the block, then `for i in 16..64`. -/
def schedule (block : Bytes) : List UInt32 :=
  (List.range' 16 48).foldl (fun w i => w ++ [schedule_word w i])
    ((List.range 16).map (word_at block))

/-- One of the 64 rounds, with its constant and its schedule word. -/
def round (s : Words) (kw : UInt32 × UInt32) : Words :=
  let s1 := rotate_right s.e 6 ^^^ rotate_right s.e 11 ^^^ rotate_right s.e 25
  let ch := (s.e &&& s.f) ^^^ (~~~s.e &&& s.g)
  let t1 := s.h + s1 + ch + kw.1 + kw.2
  let s0 := rotate_right s.a 2 ^^^ rotate_right s.a 13 ^^^ rotate_right s.a 22
  let maj := (s.a &&& s.b) ^^^ (s.a &&& s.c) ^^^ (s.b &&& s.c)
  let t2 := s0 + maj
  ⟨t1 + t2, s.a, s.b, s.c, s.d + t1, s.e, s.f, s.g⟩

def compress (state : Words) (block : Bytes) : Words :=
  state.add ((K.zip (schedule block)).foldl round state)

end Sha256

/-- Incremental SHA-256 hasher. -/
structure Sha256 where
  state : Sha256.Words
  buffer : Bytes
  buffer_len : ℕ
  total_len : UInt64
deriving DecidableEq

namespace Sha256

def new : Sha256 := ⟨H0, List.replicate 64 0, 0, 0⟩

/-- `while data.len() >= 64`: compress whole blocks; the state and what is left. -/
def compress_blocks : ℕ → Words → Bytes → Words × Bytes
  | 0, state, data => (state, data)
  | fuel + 1, state, data =>
    if 64 ≤ data.length then compress_blocks fuel (compress state (data.take 64)) (data.drop 64)
    else (state, data)

/-- `buffer[at..at + data.len()].copy_from_slice(data)`. -/
def splice (buffer : Bytes) (offset : ℕ) (data : Bytes) : Bytes :=
  buffer.take offset ++ data ++ buffer.drop (offset + data.length)

/-- The first phase of `update`: top up a partly filled buffer and compress it
when it is full. The hasher and the data not consumed. -/
def top_up (s : Sha256) (data : Bytes) : Sha256 × Bytes :=
  if s.buffer_len = 0 then (s, data)
  else
    let take := min (64 - s.buffer_len) data.length
    let buffer := splice s.buffer s.buffer_len (data.take take)
    if s.buffer_len + take = 64 then
      ({ s with state := compress s.state buffer, buffer := buffer, buffer_len := 0 },
        data.drop take)
    else ({ s with buffer := buffer, buffer_len := s.buffer_len + take }, data.drop take)

def update (s : Sha256) (data : Bytes) : Sha256 :=
  let s := { s with total_len := s.total_len + UInt64.ofNat data.length }
  let (s, data) := top_up s data
  let (state, rest) := compress_blocks data.length s.state data
  if rest = [] then { s with state := state }
  else { s with state := state, buffer := splice s.buffer 0 rest, buffer_len := rest.length }

/-- `while self.buffer_len != 56 { self.update(&[0]) }`. -/
def pad : ℕ → Sha256 → Sha256
  | 0, s => s
  | fuel + 1, s => if s.buffer_len = 56 then s else pad fuel (s.update [0])

def finish (s : Sha256) : Bytes :=
  let bit_len := s.total_len * 8
  let s := pad 64 (s.update [0x80])
  let s := s.update (to_be_bytes 8 bit_len.toNat)
  s.state.toList.flatMap fun word => to_be_bytes 4 word.toNat

@[simp] theorem length_finish (s : Sha256) : s.finish.length = 32 := by
  simp [finish, Words.toList]

end Sha256

end MiniSqlite
