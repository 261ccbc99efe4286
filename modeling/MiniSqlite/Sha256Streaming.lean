/-
The incremental hasher computes SHA-256.

Between updates the state has taken in the whole blocks of the bytes so far, and the buffer
holds what is left of them. `update` keeps this whatever the sizes of the chunks, `finish`
calls it to pad, and what it has been given by then is the padded message.
-/
import Mathlib.Logic.Function.Iterate
import MiniSqlite.Digest
import MiniSqlite.Sha256Compression

set_option autoImplicit false

namespace MiniSqlite

namespace Sha256

open Blocks (absorb residue)

/-- The bytes in the buffer. -/
def kept (s : Sha256) : Bytes := s.buffer.take s.buffer_len

/-- The buffer is an array of 64 bytes, and not full. -/
structure Open (s : Sha256) : Prop where
  width : s.buffer.length = 64
  buffer_len : s.buffer_len < 64

/-- **The hasher has been given these bytes.** -/
structure Given (s : Sha256) (m : Bytes) : Prop where
  isOpen : s.Open
  state : s.state = absorb 64 compress H0 m
  kept : s.kept = residue 64 m
  total_len : s.total_len = UInt64.ofNat m.length

variable {s : Sha256} {m : Bytes}

theorem Open.length_kept (h : s.Open) : s.kept.length = s.buffer_len := by
  rw [Sha256.kept, List.length_take, h.width]
  exact Nat.min_eq_left (Nat.le_of_lt h.buffer_len)

theorem Given.buffer_len (h : s.Given m) : s.buffer_len = m.length % 64 := by
  rw [← h.isOpen.length_kept, h.kept, Blocks.length_residue]

theorem given_new : new.Given [] := by
  refine ⟨⟨rfl, by decide⟩, ?_, ?_, rfl⟩
  · rw [Blocks.absorb_short (by decide)]
    rfl
  · rw [Blocks.residue_short (by decide)]
    rfl

/-! ## `update` -/

theorem length_splice {buffer data : Bytes} {offset : ℕ}
    (h : offset + data.length ≤ buffer.length) :
    (splice buffer offset data).length = buffer.length := by
  simp only [splice, List.length_append, List.length_take, List.length_drop]
  omega

theorem take_splice {buffer : Bytes} {offset : ℕ} (h : offset ≤ buffer.length) (data : Bytes) :
    (splice buffer offset data).take (offset + data.length) = buffer.take offset ++ data := by
  have hlen : (buffer.take offset ++ data).length = offset + data.length := by
    rw [List.length_append, List.length_take, Nat.min_eq_left h]
  rw [splice, ← hlen, List.take_left]

/-- The loop over whole blocks comes to its end, with any bound on its turns that lets it. -/
theorem compress_blocks_eq : ∀ {fuel : ℕ} {state : Words} {data : Bytes}, data.length / 64 ≤ fuel →
    compress_blocks fuel state data = (absorb 64 compress state data, residue 64 data) := by
  intro fuel
  induction fuel with
  | zero =>
      intro state data h
      have hshort : data.length < 64 := by omega
      rw [Blocks.absorb_short hshort, Blocks.residue_short hshort]
      rfl
  | succ fuel ih =>
      intro state data h
      rw [compress_blocks]
      by_cases hle : 64 ≤ data.length
      · have hrest : (data.drop 64).length / 64 ≤ fuel := by
          rw [List.length_drop]
          omega
        rw [if_pos hle, ih hrest, Blocks.absorb_step (by decide) hle,
          Blocks.residue_step (by decide) hle]
      · rw [if_neg hle, Blocks.absorb_short (by omega), Blocks.residue_short (by omega)]

/-- The first phase leaves either no data or an empty buffer, and what is still to be taken
in is the same. -/
structure ToppedUp (s : Sha256) (data : Bytes) (s' : Sha256) (rest : Bytes) : Prop where
  isOpen : s'.Open
  total_len : s'.total_len = s.total_len
  absorbed : absorb 64 compress s'.state (s'.kept ++ rest)
    = absorb 64 compress s.state (s.kept ++ data)
  left : residue 64 (s'.kept ++ rest) = residue 64 (s.kept ++ data)
  phase : rest = [] ∨ s'.kept = []

theorem topped_up (h : s.Open) (data : Bytes) :
    ToppedUp s data (top_up s data).1 (top_up s data).2 := by
  have hlt := h.buffer_len
  have hwidth := h.width
  rw [top_up]
  by_cases hempty : s.buffer_len = 0
  · rw [if_pos hempty]
    exact ⟨h, rfl, rfl, rfl, .inr (by rw [kept, hempty, List.take_zero])⟩
  rw [if_neg hempty]
  dsimp only
  generalize htake : min (64 - s.buffer_len) data.length = take
  have hlen : (data.take take).length = take := by
    rw [List.length_take]
    omega
  -- What the buffer holds once the bytes are copied.
  have hcopied : (splice s.buffer s.buffer_len (data.take take)).take (s.buffer_len + take)
      = s.kept ++ data.take take := by
    have hsplice := take_splice (show s.buffer_len ≤ s.buffer.length by omega) (data.take take)
    rwa [hlen] at hsplice
  have hbuffer : (splice s.buffer s.buffer_len (data.take take)).length = 64 := by
    rw [length_splice (by omega), hwidth]
  generalize splice s.buffer s.buffer_len (data.take take) = buffer at hcopied hbuffer
  by_cases hfull : s.buffer_len + take = 64
  · -- The buffer is the first block.
    rw [if_pos hfull]
    rw [hfull, List.take_of_length_le (by omega)] at hcopied
    have hdata : s.kept ++ data = buffer ++ data.drop take := by
      rw [hcopied, List.append_assoc, List.take_append_drop]
    have hblock : 64 ≤ (buffer ++ data.drop take).length := by
      rw [List.length_append]
      omega
    have hkept : kept ⟨compress s.state buffer, buffer, 0, s.total_len⟩ = [] := List.take_zero
    dsimp only
    refine ⟨⟨hbuffer, by simp⟩, rfl, ?_, ?_, .inr hkept⟩
    · rw [hdata, Blocks.absorb_step (by decide) hblock, List.take_left' hbuffer,
        List.drop_left' hbuffer, hkept, List.nil_append]
    · rw [hdata, Blocks.residue_step (by decide) hblock, List.drop_left' hbuffer, hkept,
        List.nil_append]
  · -- All the data went into the buffer.
    rw [if_neg hfull]
    have hall : data.length ≤ take := by omega
    have hkept : buffer.take (s.buffer_len + take) = s.kept ++ data := by
      rw [hcopied, List.take_of_length_le hall]
    refine ⟨⟨hbuffer, ?_⟩, rfl, ?_, ?_, .inl (List.drop_of_length_le hall)⟩
    · dsimp only
      omega
    all_goals
      rw [List.drop_of_length_le hall, List.append_nil, kept]
      dsimp only
      rw [hkept]

/-- The phases behind the first: whole blocks, and what they leave into the buffer. -/
def drain (s : Sha256) (rest : Bytes) : Sha256 :=
  let (state, rest) := compress_blocks rest.length s.state rest
  if rest = [] then { s with state := state }
  else { s with state := state, buffer := splice s.buffer 0 rest, buffer_len := rest.length }

/-- The first phase, and the others. -/
theorem update_eq (s : Sha256) (data : Bytes) : s.update data =
    ((top_up { s with total_len := s.total_len + UInt64.ofNat data.length } data).1).drain
      (top_up { s with total_len := s.total_len + UInt64.ofNat data.length } data).2 := rfl

theorem drain_total_len (s : Sha256) (rest : Bytes) : (s.drain rest).total_len = s.total_len := by
  rw [drain]
  dsimp only
  split_ifs <;> dsimp only

theorem drain_state (h : s.Open) {rest : Bytes} (hphase : rest = [] ∨ s.kept = []) :
    (s.drain rest).state = absorb 64 compress s.state (s.kept ++ rest) := by
  have hstate : (s.drain rest).state = absorb 64 compress s.state rest := by
    rw [drain, compress_blocks_eq (by omega)]
    dsimp only
    split_ifs <;> dsimp only
  rcases hphase with hrest | hkept
  · have hlt : s.kept.length < 64 := by
      rw [h.length_kept]
      exact h.buffer_len
    rw [hstate, hrest, List.append_nil, Blocks.absorb_short hlt, Blocks.absorb_short (by simp)]
  · rw [hstate, hkept, List.nil_append]

theorem drain_kept (h : s.Open) {rest : Bytes} (hphase : rest = [] ∨ s.kept = []) :
    (s.drain rest).Open ∧ (s.drain rest).kept = residue 64 (s.kept ++ rest) := by
  have hlt : s.kept.length < 64 := by
    rw [h.length_kept]
    exact h.buffer_len
  have hresidue : (residue 64 rest).length < 64 := Blocks.residue_lt (by decide)
  rw [drain, compress_blocks_eq (by omega)]
  dsimp only
  by_cases hnone : residue 64 rest = []
  · -- The buffer stays as it was.
    rw [if_pos hnone]
    refine ⟨⟨h.width, h.buffer_len⟩, ?_⟩
    change s.kept = _
    rcases hphase with hrest | hkept
    · rw [hrest, List.append_nil, Blocks.residue_short hlt]
    · rw [hkept, List.nil_append, hnone]
  · -- Data is left, so the buffer was empty.
    rw [if_neg hnone]
    have hkept : s.kept = [] := by
      apply hphase.resolve_left
      intro hrest
      exact hnone (by rw [hrest, Blocks.residue_short (by simp)])
    have hwidth := h.width
    refine ⟨⟨?_, hresidue⟩, ?_⟩
    · dsimp only
      rw [length_splice (by omega), hwidth]
    · have htake := take_splice (Nat.zero_le s.buffer.length) (residue 64 rest)
      rw [Nat.zero_add, List.take_zero, List.nil_append] at htake
      rw [hkept, List.nil_append]
      exact htake

/-- What a hasher does with a chunk, from any state and buffer. -/
theorem update_open (h : s.Open) (data : Bytes) : (s.update data).Open
    ∧ (s.update data).state = absorb 64 compress s.state (s.kept ++ data)
    ∧ (s.update data).kept = residue 64 (s.kept ++ data)
    ∧ (s.update data).total_len = s.total_len + UInt64.ofNat data.length := by
  have hcounted : Open { s with total_len := s.total_len + UInt64.ofNat data.length } :=
    ⟨h.width, h.buffer_len⟩
  have htop := topped_up hcounted data
  obtain ⟨hopen, hkept⟩ := drain_kept htop.isOpen htop.phase
  rw [update_eq]
  refine ⟨hopen, ?_, ?_, ?_⟩
  · rw [drain_state htop.isOpen htop.phase, htop.absorbed]
    rfl
  · rw [hkept, htop.left]
    rfl
  · rw [drain_total_len, htop.total_len]

/-- **`update` gives the hasher one more chunk.** -/
theorem Given.update (h : s.Given m) (data : Bytes) : (s.update data).Given (m ++ data) := by
  obtain ⟨hopen, hstate, hkept, htotal⟩ := update_open h.isOpen data
  have happ := Blocks.append (f := compress) (by decide : 0 < 64) m data H0
  refine ⟨hopen, ?_, ?_, ?_⟩
  · rw [hstate, h.state, h.kept, happ.1]
  · rw [hkept, h.kept, happ.2]
  · rw [htotal, h.total_len, List.length_append, UInt64.ofNat_add]

/-- The hasher after these chunks. -/
def fed (chunks : List Bytes) : Sha256 := chunks.foldl Sha256.update new

/-- Between updates, however the bytes were split. -/
theorem given_fed (chunks : List Bytes) : (fed chunks).Given chunks.flatten := by
  unfold fed
  induction chunks using List.reverseRecOn with
  | nil => exact given_new
  | append_singleton chunks data ih =>
      rw [List.foldl_concat, List.flatten_concat]
      exact ih.update data

/-! ## `finish` -/

/-- One turn of the padding loop. -/
def pad_turn (s : Sha256) : Sha256 := s.update [0]

/-- The padding loop runs this many turns. -/
structure PadsIn (turns : ℕ) (s : Sha256) : Prop where
  before : ∀ i < turns, (pad_turn^[i] s).buffer_len ≠ 56
  after : (pad_turn^[turns] s).buffer_len = 56

/-- Any bound on the turns that lets the loop end is as good as none. -/
theorem PadsIn.pad_eq {turns : ℕ} : ∀ {fuel : ℕ} {s : Sha256}, PadsIn turns s → turns ≤ fuel →
    pad fuel s = pad_turn^[turns] s := by
  induction turns with
  | zero =>
      intro fuel s h _
      rcases fuel with _ | fuel
      · rfl
      · have hfull : s.buffer_len = 56 := h.after
        rw [pad, if_pos hfull]
        rfl
  | succ turns ih =>
      intro fuel s h hfuel
      rcases fuel with _ | fuel
      · omega
      · have hrest : PadsIn turns (pad_turn s) :=
          ⟨fun i hi => h.before (i + 1) (by omega), h.after⟩
        have hopen : s.buffer_len ≠ 56 := h.before 0 (by omega)
        rw [pad, if_neg hopen, Function.iterate_succ_apply]
        exact ih hrest (by omega)

theorem Given.pad_turns (h : s.Given m) (turns : ℕ) :
    (pad_turn^[turns] s).Given (m ++ List.replicate turns 0) := by
  induction turns with
  | zero =>
      rw [List.replicate_zero, List.append_nil]
      exact h
  | succ turns ih =>
      rw [Function.iterate_succ_apply', List.replicate_succ', ← List.append_assoc]
      exact ih.update [0]

theorem Given.padsIn (h : s.Given m) : PadsIn (Fips180.zeros m.length) (s.update [0x80]) := by
  have hfill : ∀ turns, (pad_turn^[turns] (s.update [0x80])).buffer_len
      = (m.length + 1 + turns) % 64 := by
    intro turns
    have hgiven := (h.update [0x80]).pad_turns turns
    rw [hgiven.buffer_len]
    simp only [List.length_append, List.length_singleton, List.length_replicate]
  obtain ⟨hends, hleast⟩ := Fips180.zeros_least m.length
  constructor
  · intro i hi hfull
    rw [hfill] at hfull
    exact absurd (hleast i hfull) (by omega)
  · rw [hfill, hends]

theorem to_be_bytes_eq (width n : ℕ) : to_be_bytes width n = Fips180.big_endian width n := by
  induction width with
  | zero => rfl
  | succ width ih =>
      rw [to_be_bytes, ih, Fips180.big_endian, Fips180.big_endian, List.range_succ_eq_map,
        List.map_cons, List.map_map]
      congr 1
      apply List.map_congr_left
      intro i _
      rw [Function.comp_apply, show width + 1 - 1 - i.succ = width - 1 - i by omega]

/-- The length in bits does not wrap. -/
theorem Given.bit_len (h : s.Given m) (hlen : m.length < 2 ^ 61) :
    (s.total_len * 8).toNat = 8 * m.length := by
  have height : (8 : UInt64).toNat = 8 := rfl
  rw [h.total_len, UInt64.toNat_mul, UInt64.toNat_ofNat', height]
  omega

theorem absorb_bits (state : Words) (m : Bytes) : (absorb 64 compress state m).bits
    = absorb 64 Fips180.hash_block state.bits m :=
  (List.foldl_hom Words.bits (fun v M => (compress_bits v M).symm)).symm

theorem output_eq (w : Words) : (w.toList.flatMap fun word => to_be_bytes 4 word.toNat)
    = w.bits.toList.flatMap fun word => Fips180.big_endian 4 word.toNat := by
  simp only [to_be_bytes_eq, Words.toList, Fips180.Vars.toList, Words.bits]
  rfl

/-- **`finish` is the digest of the bytes given.** -/
theorem Given.finish (h : s.Given m) (hlen : m.length < 2 ^ 61) : s.finish = Fips180.digest m := by
  have hzeros : Fips180.zeros m.length ≤ 64 := by
    rw [Fips180.zeros]
    omega
  have hpadded := ((h.update [0x80]).pad_turns (Fips180.zeros m.length)).update
    (to_be_bytes 8 (8 * m.length))
  have hmessage : m ++ [0x80] ++ List.replicate (Fips180.zeros m.length) 0
      ++ to_be_bytes 8 (8 * m.length) = Fips180.pad m := by
    simp [Fips180.pad, to_be_bytes_eq]
  rw [hmessage] at hpadded
  rw [Sha256.finish, h.bit_len hlen, h.padsIn.pad_eq hzeros, output_eq, hpadded.state,
    absorb_bits, H0_bits, Fips180.digest]

end Sha256

/-- The digest of a batch is that of its encoding. -/
theorem CommitBatch.request_digest_eq {b : CommitBatch} (hlen : b.encoding.length < 2 ^ 61) :
    b.request_digest = Fips180.digest b.encoding :=
  (Sha256.given_fed b.request_chunks).finish hlen

/-- **The streaming hasher is SHA-256.** Whatever the message below `2 ^ 61` bytes and however
it is split into chunks, the digest is that of FIPS 180-4; the buffer is never full between
updates; and the loop that pads ends, in fewer turns than the buffer has bytes, so that the
bound of the model on its turns is none. -/
theorem streaming_sha256 (m : Bytes) (chunks : List Bytes) (hsplit : chunks.flatten = m)
    (hlen : m.length < 2 ^ 61) :
    (Sha256.fed chunks).finish = Fips180.digest m
      ∧ (∀ k, (Sha256.fed (chunks.take k)).buffer_len < 64)
      ∧ ∃ turns < 64, Sha256.PadsIn turns ((Sha256.fed chunks).update [0x80])
          ∧ ∀ fuel ≥ turns, Sha256.pad fuel ((Sha256.fed chunks).update [0x80])
              = Sha256.pad_turn^[turns] ((Sha256.fed chunks).update [0x80]) := by
  subst hsplit
  have hgiven := Sha256.given_fed chunks
  refine ⟨hgiven.finish hlen, fun k => (Sha256.given_fed (chunks.take k)).isOpen.buffer_len,
    Fips180.zeros chunks.flatten.length, ?_, hgiven.padsIn, fun fuel h => hgiven.padsIn.pad_eq h⟩
  rw [Fips180.zeros]
  omega

/-- The message `abc`, in three chunks of which one is empty. -/
theorem streaming_sha256_abc :
    (Sha256.fed [[0x61], [], [0x62, 0x63]]).finish = Fips180.digest [0x61, 0x62, 0x63]
      ∧ (∀ k, (Sha256.fed ([[0x61], [], [0x62, 0x63]].take k)).buffer_len < 64)
      ∧ ∃ turns < 64, Sha256.PadsIn turns ((Sha256.fed [[0x61], [], [0x62, 0x63]]).update [0x80])
          ∧ ∀ fuel ≥ turns, Sha256.pad fuel ((Sha256.fed [[0x61], [], [0x62, 0x63]]).update [0x80])
              = Sha256.pad_turn^[turns] ((Sha256.fed [[0x61], [], [0x62, 0x63]]).update [0x80]) :=
  streaming_sha256 [0x61, 0x62, 0x63] [[0x61], [], [0x62, 0x63]] rfl (by decide)

/-- The digest of `abc`, as the source's tests know it. -/
example : (Sha256.new.update [0x61, 0x62, 0x63]).finish =
    [0xba, 0x78, 0x16, 0xbf, 0x8f, 0x01, 0xcf, 0xea, 0x41, 0x41, 0x40, 0xde, 0x5d, 0xae, 0x22, 0x23,
      0xb0, 0x03, 0x61, 0xa3, 0x96, 0x17, 0x7a, 0x9c, 0xb4, 0x10, 0xff, 0x61, 0xf2, 0x00, 0x15,
      0xad] := by
  decide +kernel

end MiniSqlite
