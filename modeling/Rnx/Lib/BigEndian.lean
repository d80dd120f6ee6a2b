import Mathlib.Algebra.Group.Nat.Defs
import Mathlib.Data.List.Induction
import Mathlib.Tactic.Common

/-!
# Numbers in network order

A number in a given number of bytes, the most significant first, and the number that bytes stand
for.  Each undoes the other, so a number that fits is found again in the bytes it is written to.
-/

namespace Rnx

namespace BigEndian

/-- `to_be_bytes` of a number of the given width in bytes. -/
def toBytes (width n : Nat) : List UInt8 :=
  (List.range width).map fun i => UInt8.ofNat (n >>> (8 * (width - 1 - i)))

/-- `from_be_bytes`. -/
def ofBytes (bs : List UInt8) : Nat := bs.foldl (fun v b => v * 256 + b.toNat) 0

@[simp] lemma length_toBytes (width n : Nat) : (toBytes width n).length = width := by
  unfold toBytes
  rw [List.length_map, List.length_range]

/-- The bytes of a number: those of its upper part, and its lowest one. -/
lemma toBytes_succ (width n : Nat) :
    toBytes (width + 1) n = toBytes width (n / 256) ++ [UInt8.ofNat n] := by
  unfold toBytes
  rw [List.range_succ, List.map_append, List.map_singleton]
  congr 1
  · refine List.map_congr_left fun i hi => ?_
    have hlt := List.mem_range.1 hi
    rw [show 8 * (width + 1 - 1 - i) = 8 + 8 * (width - 1 - i) by omega, Nat.shiftRight_add,
      Nat.shiftRight_eq_div_pow n 8]
  · rw [show 8 * (width + 1 - 1 - width) = 0 by omega, Nat.shiftRight_zero]

lemma ofBytes_append (bs : List UInt8) (b : UInt8) :
    ofBytes (bs ++ [b]) = ofBytes bs * 256 + b.toNat := by
  unfold ofBytes
  rw [List.foldl_append]
  rfl

lemma ofBytes_toBytes {width n : Nat} (h : n < 256 ^ width) : ofBytes (toBytes width n) = n := by
  induction width generalizing n with
  | zero =>
    rw [Nat.pow_zero] at h
    obtain rfl : n = 0 := by omega
    rfl
  | succ width ih =>
    rw [Nat.pow_succ] at h
    rw [toBytes_succ, ofBytes_append, ih (by omega), UInt8.toNat_ofNat']
    omega

lemma ofBytes_lt (bs : List UInt8) : ofBytes bs < 256 ^ bs.length := by
  induction bs using List.reverseRecOn with
  | nil => exact Nat.one_pos
  | append_singleton bs b ih =>
    rw [ofBytes_append, List.length_append, List.length_singleton, Nat.pow_succ]
    have := b.toNat_lt
    omega

lemma toBytes_ofBytes (bs : List UInt8) : toBytes bs.length (ofBytes bs) = bs := by
  induction bs using List.reverseRecOn with
  | nil => rfl
  | append_singleton bs b ih =>
    have hb := b.toNat_lt
    have hlow : UInt8.ofNat (ofBytes bs * 256 + b.toNat) = b := by
      apply UInt8.toNat_inj.1
      rw [UInt8.toNat_ofNat']
      omega
    rw [ofBytes_append, List.length_append, List.length_singleton, toBytes_succ, hlow,
      show (ofBytes bs * 256 + b.toNat) / 256 = ofBytes bs by omega, ih]

/-- A number that fits is determined by its bytes. -/
lemma toBytes_inj {width n m : Nat} (hn : n < 256 ^ width) (hm : m < 256 ^ width)
    (h : toBytes width n = toBytes width m) : n = m := by
  rw [← ofBytes_toBytes hn, h, ofBytes_toBytes hm]

end BigEndian

end Rnx
