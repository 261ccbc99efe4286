/-
Bytes as pairs of digits of base sixteen.

An alphabet says which symbols stand for which digit and which of them is written for it, so
that lower and upper case may be read alike and one of them is written. Bytes that are
written are read back, and what is read is written again symbol by symbol.
-/
import Mathlib.Data.List.Basic
import Mathlib.Data.Nat.Notation
import Mathlib.Data.UInt

set_option autoImplicit false

namespace Base16

/-! ## Bytes and nibbles -/

/-- What holds of the first 256 numbers holds of every byte. -/
theorem forall_byte {P : UInt8 → Prop} (h : ∀ k < 256, P (UInt8.ofNat k)) (b : UInt8) : P b := by
  have hb := h b.toNat b.toNat_lt
  rwa [UInt8.ofNat_toNat] at hb

/-- What holds of the first 16 holds of every nibble. -/
theorem forall_nibble {P : UInt8 → Prop} (h : ∀ k < 16, P (UInt8.ofNat k)) {n : UInt8}
    (hn : n.toNat < 16) : P n := by
  have hnibble := h n.toNat hn
  rwa [UInt8.ofNat_toNat] at hnibble

/-- The high nibble is the quotient by sixteen. -/
theorem toNat_high (b : UInt8) : (b >>> 4).toNat = b.toNat / 16 := by
  rw [UInt8.toNat_shiftRight]
  exact Nat.shiftRight_eq_div_pow b.toNat 4

/-- The low nibble is the remainder. -/
theorem toNat_low (b : UInt8) : (b &&& 0xf).toNat = b.toNat % 16 := by
  rw [UInt8.toNat_and]
  exact Nat.and_two_pow_sub_one_eq_mod b.toNat 4

/-- The high nibble is below sixteen. -/
theorem high_lt (b : UInt8) : (b >>> 4).toNat < 16 := by
  have hlt := b.toNat_lt
  rw [toNat_high]
  omega

/-- So is the low one. -/
theorem low_lt (b : UInt8) : (b &&& 0xf).toNat < 16 := by
  rw [toNat_low]
  omega

/-- Two nibbles beside each other: the shift loses nothing and the two do not overlap. -/
theorem toNat_join {high low : UInt8} (hhigh : high.toNat < 16) (hlow : low.toNat < 16) :
    ((high <<< 4) ||| low).toNat = 16 * high.toNat + low.toNat := by
  have hshift : (high <<< 4).toNat = high.toNat <<< 4 := by
    rw [UInt8.toNat_shiftLeft]
    apply Nat.mod_eq_of_lt
    rw [Nat.shiftLeft_eq]
    simp
    omega
  rw [UInt8.toNat_or, hshift, ← Nat.shiftLeft_add_eq_or_of_lt (by omega), Nat.shiftLeft_eq]
  omega

/-- A byte is put together from its nibbles. -/
theorem join_nibbles (b : UInt8) : ((b >>> 4) <<< 4) ||| (b &&& 0xf) = b := by
  apply UInt8.toNat_inj.mp
  rw [toNat_join (high_lt b) (low_lt b), toNat_high, toNat_low]
  omega

/-- And taken apart into them. -/
theorem high_join {high low : UInt8} (hhigh : high.toNat < 16) (hlow : low.toNat < 16) :
    ((high <<< 4) ||| low) >>> 4 = high := by
  apply UInt8.toNat_inj.mp
  rw [toNat_high, toNat_join hhigh hlow]
  omega

/-- The same for the low one. -/
theorem low_join {high low : UInt8} (hhigh : high.toNat < 16) (hlow : low.toNat < 16) :
    ((high <<< 4) ||| low) &&& 0xf = low := by
  apply UInt8.toNat_inj.mp
  rw [toNat_low, toNat_join hhigh hlow]
  omega

/-! ## Alphabets -/

/-- The symbols of sixteen digits. A digit may have several, and one of them is written. -/
structure Alphabet (α : Type) where
  value : α → Option UInt8
  digit : UInt8 → α
  value_lt : ∀ {a n}, value a = some n → n.toNat < 16
  value_digit : ∀ {n}, n.toNat < 16 → value (digit n) = some n

namespace Alphabet

variable {α : Type} (A : Alphabet α)

/-- Two symbols a byte. -/
def encode (bytes : List UInt8) : List α :=
  bytes.flatMap fun (b : UInt8) => [A.digit (b >>> 4), A.digit (b &&& 0xf)]

/-- Two symbols a byte; none is left over. -/
def decode : List α → Option (List UInt8)
  | [] => some []
  | [_] => none
  | a :: b :: rest =>
    match A.value a, A.value b, decode rest with
    | some high, some low, some bytes => some (((high <<< 4) ||| low) :: bytes)
    | _, _, _ => none

/-- The symbol that is written for what this one stands for. -/
def written (a : α) : α := (A.value a).elim a A.digit

variable {A}

/-- Two characters a byte, the high nibble first. -/
@[simp] theorem encode_cons (b : UInt8) (bytes : List UInt8) :
    A.encode (b :: bytes) = A.digit (b >>> 4) :: A.digit (b &&& 0xf) :: A.encode bytes := rfl

/-- A character that has a value is written back as the digit of that value. -/
theorem written_eq {a : α} {n : UInt8} (h : A.value a = some n) : A.written a = A.digit n := by
  rw [written, h]
  rfl

/-- **What is written is read back.** -/
theorem decode_encode (bytes : List UInt8) : A.decode (A.encode bytes) = some bytes := by
  induction bytes with
  | nil => rfl
  | cons b bytes ih =>
      rw [encode_cons, decode, A.value_digit (high_lt b), A.value_digit (low_lt b), ih]
      simp only [join_nibbles]

/-- A text can be decoded if every character of it has a value. -/
theorem decode_cons_cons_isSome (a b : α) (rest : List α) :
    (A.decode (a :: b :: rest)).isSome
      ↔ (A.value a).isSome ∧ (A.value b).isSome ∧ (A.decode rest).isSome := by
  rw [decode]
  cases A.value a <;> cases A.value b <;> cases A.decode rest <;> simp

/-- **What is read is symbols of digits, two for each byte.** -/
theorem decode_isSome_iff (xs : List α) :
    (A.decode xs).isSome ↔ xs.length % 2 = 0 ∧ ∀ a ∈ xs, (A.value a).isSome := by
  match xs with
  | [] => simp [decode]
  | [_] => simp [decode]
  | a :: b :: rest =>
    have heven : (rest.length + 1 + 1) % 2 = rest.length % 2 := by omega
    rw [decode_cons_cons_isSome, decode_isSome_iff rest]
    simp only [List.length_cons, heven, List.forall_mem_cons]
    tauto

/-- **What is read is written again symbol by symbol.** -/
theorem encode_of_decode {xs : List α} {bytes : List UInt8} (h : A.decode xs = some bytes) :
    A.encode bytes = xs.map A.written := by
  fun_induction decode A xs generalizing bytes with
  | case1 =>
    obtain rfl := Option.some.inj h
    rfl
  | case2 a => exact absurd h (by simp)
  | case3 a b rest high low bytes' hrest hlow hhigh ih =>
    obtain rfl := Option.some.inj h
    have hhigh16 := A.value_lt hhigh
    have hlow16 := A.value_lt hlow
    rw [encode_cons, high_join hhigh16 hlow16, low_join hhigh16 hlow16, ih hrest, List.map_cons,
      List.map_cons, written_eq hhigh, written_eq hlow]
  | case4 => exact absurd h (by simp)

/-- What is decoded has half as many bytes as there were characters. -/
theorem length_of_decode {xs : List α} {bytes : List UInt8} (h : A.decode xs = some bytes) :
    xs.length = 2 * bytes.length := by
  have hlength := congrArg List.length (encode_of_decode h)
  rw [encode, List.length_flatMap, List.length_map] at hlength
  simp at hlength
  omega

end Alphabet

end Base16
