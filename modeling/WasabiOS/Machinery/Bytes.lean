import Mathlib.Algebra.Order.Ring.Nat

/-!
# Machinery/Bytes — pieces of one size, numbers as little-endian bytes, and CRC32

A list that is put together from pieces of one size is cut at a multiple of that size by cutting the list of
pieces.  `toLe w n` are the `w` bytes of `n`, least significant first, and `fromLe` reads them back.  `crc32` is the
cyclic redundancy check with the reflected polynomial `0xEDB88320`, bit by bit.
-/

namespace Machinery
open List

/-! ## Pieces of one size -/

variable {α β : Type} {f : α → List β} {n : ℕ}
section
variable (hf : ∀ a, (f a).length = n)
include hf

theorem length_flatMap_of_length (l : List α) : (l.flatMap f).length = l.length * n := by
  induction l with
  | nil => rw [flatMap_nil, length_nil, length_nil, zero_mul]
  | cons a l ih => rw [flatMap_cons, length_append, ih, hf, length_cons, Nat.succ_mul, add_comm]

theorem drop_flatMap_of_length (l : List α) (k : ℕ) : (l.flatMap f).drop (k * n) = (l.drop k).flatMap f := by
  have hlen : ((l.take k).flatMap f).length = min k l.length * n := by rw [length_flatMap_of_length hf, length_take]
  rcases le_total k l.length with h | h
  · rw [min_eq_left h] at hlen
    nth_rewrite 1 [← take_append_drop k l]
    rw [flatMap_append, drop_left' hlen]
  · rw [drop_of_length_le h, flatMap_nil, drop_of_length_le]
    rw [length_flatMap_of_length hf]
    exact Nat.mul_le_mul_right n h

theorem take_flatMap_of_length (l : List α) (k : ℕ) : (l.flatMap f).take (k * n) = (l.take k).flatMap f := by
  have hsplit : (l.take k).flatMap f ++ (l.drop k).flatMap f = l.flatMap f := by rw [← flatMap_append, take_append_drop]
  have htake := take_append_drop (k * n) (l.flatMap f)
  rw [drop_flatMap_of_length hf] at htake
  exact append_cancel_right (htake.trans hsplit.symm)
end

/-! ## Little-endian numbers -/

/-- The `w` little-endian bytes of `n`; higher bits are dropped. -/
def toLe : ℕ → ℕ → List UInt8
  | 0, _ => []
  | w + 1, n => UInt8.ofNat (n % 256) :: toLe w (n / 256)

/-- The number with the given little-endian bytes. -/
def fromLe : List UInt8 → ℕ
  | [] => 0
  | b :: bs => b.toNat + 256 * fromLe bs

theorem toLe_fromLe (l : List UInt8) : toLe l.length (fromLe l) = l := by
  induction l with
  | nil => rfl
  | cons b bs ih =>
    have hb : b.toNat < 256 := b.toNat_lt
    have hmod : (b.toNat + 256 * fromLe bs) % 256 = b.toNat := by omega
    have hdiv : (b.toNat + 256 * fromLe bs) / 256 = fromLe bs := by omega
    rw [length_cons, toLe, fromLe, hmod, hdiv, ih, UInt8.ofNat_toNat]

/-! ## CRC32 -/

/-- One bit is shifted out. -/
def crcBit (c : ℕ) : ℕ := if c % 2 = 1 then (c / 2) ^^^ 0xEDB88320 else c / 2

def crcByte (c : ℕ) (b : UInt8) : ℕ := crcBit^[8] (c ^^^ b.toNat)

def crc32 (bytes : List UInt8) : ℕ := bytes.foldl crcByte 0xFFFFFFFF ^^^ 0xFFFFFFFF

@[simp] theorem crc32_nil : crc32 [] = 0 := Nat.xor_self _

example : crc32 "123456789".toUTF8.data.toList = 0xCBF43926 := by decide +kernel
end Machinery
