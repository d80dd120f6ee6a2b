import Mathlib.Tactic.Common

/-!
# Packed bits, words and slices

A byte string read as a string of bits, the bits of a byte in ascending order; little-endian
words of a byte string; and the checked reads and overwrites of a range of a list that a slice
expression stands for.  Every operation is characterised by the bits or the elements it yields,
so that later proofs never look at a shift.
-/

namespace Packed

/-- Bit `j` of a byte string; no bit beyond the end is set. -/
def bitAt (bytes : List (BitVec 8)) (j : Nat) : Bool := (bytes.getD (j / 8) 0).getLsbD (j % 8)

/-- Bit `j` of a string of words. -/
def wordBit (words : List (BitVec 64)) (j : Nat) : Bool :=
  (words.getD (j / 64) 0).getLsbD (j % 64)

/-- The little-endian word of a byte string, missing bytes read as zero. -/
def leWord (bytes : List (BitVec 8)) : BitVec 64 :=
  bytes.foldr (fun b w => w <<< 8 ||| b.setWidth 64) 0

/-- The eight bytes of a word, the lowest first. -/
def leBytes (w : BitVec 64) : List (BitVec 8) :=
  (List.range 8).map fun i => (w >>> (8 * i)).setWidth 8

/-! ## Bits of byte strings -/

@[simp] lemma bitAt_nil (j : Nat) : bitAt [] j = false := by simp [bitAt]

lemma bitAt_of_le {bytes : List (BitVec 8)} {j : Nat} (h : 8 * bytes.length ≤ j) :
    bitAt bytes j = false := by
  have hj : bytes.length ≤ j / 8 := by omega
  simp [bitAt, List.getElem?_eq_none hj]

lemma bitAt_cons (b : BitVec 8) (bytes : List (BitVec 8)) (j : Nat) :
    bitAt (b :: bytes) j = if j < 8 then b.getLsbD j else bitAt bytes (j - 8) := by
  unfold bitAt
  split
  · rename_i h
    rw [Nat.div_eq_of_lt h, Nat.mod_eq_of_lt h]
    rfl
  · rename_i h
    have hd : j / 8 = (j - 8) / 8 + 1 := by omega
    have hm : j % 8 = (j - 8) % 8 := by omega
    rw [hd, hm]
    rfl

lemma bitAt_append (xs ys : List (BitVec 8)) (j : Nat) :
    bitAt (xs ++ ys) j = if j < 8 * xs.length then bitAt xs j else bitAt ys (j - 8 * xs.length) := by
  unfold bitAt
  split
  · rename_i h
    have hj : j / 8 < xs.length := by omega
    simp [List.getElem?_append_left hj]
  · rename_i h
    have hj : xs.length ≤ j / 8 := by omega
    have hm : (j - 8 * xs.length) % 8 = j % 8 := by omega
    have hd : (j - 8 * xs.length) / 8 = j / 8 - xs.length := by omega
    simp [List.getElem?_append_right hj, hm, hd]

lemma bitAt_drop (bytes : List (BitVec 8)) (n j : Nat) :
    bitAt (bytes.drop n) j = bitAt bytes (8 * n + j) := by
  have hd : (8 * n + j) / 8 = n + j / 8 := by omega
  have hm : (8 * n + j) % 8 = j % 8 := by omega
  simp [bitAt, hd, hm]

lemma bitAt_take (bytes : List (BitVec 8)) (n j : Nat) :
    bitAt (bytes.take n) j = (decide (j < 8 * n) && bitAt bytes j) := by
  by_cases h : j < 8 * n
  · have hj : j / 8 < n := by omega
    simp [bitAt, h, hj]
  · have hj : ¬ j / 8 < n := by omega
    have hl : (bytes.take n).length ≤ j / 8 := by simp; omega
    simp [bitAt, h, List.getElem?_eq_none hl]

/-- Two byte strings of one length with the same bits are equal. -/
lemma eq_of_bitAt {xs ys : List (BitVec 8)} (hl : xs.length = ys.length)
    (h : ∀ j, bitAt xs j = bitAt ys j) : xs = ys := by
  refine List.ext_getElem hl fun i hx hy => ?_
  refine BitVec.eq_of_getLsbD_eq fun k hk => ?_
  have hi := h (8 * i + k)
  have hd : (8 * i + k) / 8 = i := by omega
  have hm : (8 * i + k) % 8 = k := by omega
  simpa [bitAt, hd, hm, hx, hy] using hi

lemma bitAt_replicate_zero (n j : Nat) : bitAt (List.replicate n 0) j = false := by
  unfold bitAt
  rcases Nat.lt_or_ge (j / 8) n with h | h
  · simp [h]
  · simp [Nat.not_lt.2 h]

/-! ## Words -/

lemma getLsbD_leWord (bytes : List (BitVec 8)) {j : Nat} (hj : j < 64) :
    (leWord bytes).getLsbD j = bitAt bytes j := by
  induction bytes generalizing j with
  | nil => simp [leWord]
  | cons b bytes ih =>
    have hw : leWord (b :: bytes) = leWord bytes <<< 8 ||| b.setWidth 64 := rfl
    rw [hw, bitAt_cons, BitVec.getLsbD_or, BitVec.getLsbD_shiftLeft, BitVec.getLsbD_setWidth]
    split
    · rename_i h
      simp [h, hj]
    · rename_i h
      rw [ih (by omega), BitVec.getLsbD_of_ge b j (by omega)]
      simp [h, hj]

@[simp] lemma length_leBytes (w : BitVec 64) : (leBytes w).length = 8 := by simp [leBytes]

lemma bitAt_leBytes (w : BitVec 64) (j : Nat) : bitAt (leBytes w) j = w.getLsbD j := by
  by_cases h : j < 64
  · have hd : j / 8 < 8 := by omega
    have hj : 8 * (j / 8) + j % 8 = j := by omega
    have hm : j % 8 < 8 := by omega
    simp [bitAt, leBytes, hd, hj, hm]
  · rw [bitAt_of_le (by rw [length_leBytes]; omega), BitVec.getLsbD_of_ge w j (by omega)]

lemma wordBit_of_lt {words : List (BitVec 64)} {i k : Nat} (hk : k < 64) :
    wordBit words (64 * i + k) = (words.getD i 0).getLsbD k := by
  have hd : (64 * i + k) / 64 = i := by omega
  have hm : (64 * i + k) % 64 = k := by omega
  rw [wordBit, hd, hm]

lemma wordBit_cons (w : BitVec 64) (words : List (BitVec 64)) (j : Nat) :
    wordBit (w :: words) j = if j < 64 then w.getLsbD j else wordBit words (j - 64) := by
  unfold wordBit
  split
  · rename_i h
    rw [Nat.div_eq_of_lt h, Nat.mod_eq_of_lt h]
    rfl
  · rename_i h
    have hd : j / 64 = (j - 64) / 64 + 1 := by omega
    have hm : j % 64 = (j - 64) % 64 := by omega
    rw [hd, hm]
    rfl

@[simp] lemma wordBit_nil (j : Nat) : wordBit [] j = false := by simp [wordBit]

lemma wordBit_of_le {words : List (BitVec 64)} {j : Nat} (h : 64 * words.length ≤ j) :
    wordBit words j = false := by
  have hj : words.length ≤ j / 64 := by omega
  simp [wordBit, List.getElem?_eq_none hj]

lemma wordBit_append (xs ys : List (BitVec 64)) (j : Nat) :
    wordBit (xs ++ ys) j =
      if j < 64 * xs.length then wordBit xs j else wordBit ys (j - 64 * xs.length) := by
  induction xs generalizing j with
  | nil => simp
  | cons w xs ih =>
    rw [List.cons_append, wordBit_cons, wordBit_cons, ih, List.length_cons]
    split_ifs with hw hxs hall hall
    · rfl
    · omega
    · rfl
    · omega
    · omega
    · congr 1
      omega

lemma wordBit_take (words : List (BitVec 64)) (n j : Nat) :
    wordBit (words.take n) j = (decide (j < 64 * n) && wordBit words j) := by
  by_cases h : j < 64 * n
  · have hj : j / 64 < n := by omega
    simp [wordBit, h, hj]
  · rw [wordBit_of_le (by simp; omega), decide_eq_false h, Bool.false_and]

lemma length_flatMap_leBytes (words : List (BitVec 64)) :
    (words.flatMap leBytes).length = 8 * words.length := by
  induction words with
  | nil => rfl
  | cons w words ih =>
    rw [List.flatMap_cons, List.length_append, length_leBytes, ih, List.length_cons]
    omega

/-- The bits of a string of words are those of its bytes. -/
lemma bitAt_flatMap_leBytes (words : List (BitVec 64)) (j : Nat) :
    bitAt (words.flatMap leBytes) j = wordBit words j := by
  induction words generalizing j with
  | nil => rw [List.flatMap_nil, bitAt_nil, wordBit_nil]
  | cons w words ih =>
    rw [List.flatMap_cons, bitAt_append, length_leBytes, bitAt_leBytes, ih, wordBit_cons]

/-! ## Slices -/

variable {α : Type}

/-- `xs[start..start + n]`, or nothing when the range is not inside the list. -/
def slice? (xs : List α) (start n : Nat) : Option (List α) :=
  if start + n ≤ xs.length then some ((xs.drop start).take n) else none

/-- `xs` with the elements from `start` on replaced by `ys`, or nothing when they do not fit. -/
def splice? (xs : List α) (start : Nat) (ys : List α) : Option (List α) :=
  if start + ys.length ≤ xs.length then
    some (xs.take start ++ ys ++ xs.drop (start + ys.length))
  else none

lemma slice?_eq {xs : List α} {start n : Nat} (h : start + n ≤ xs.length) :
    slice? xs start n = some ((xs.drop start).take n) := if_pos h

lemma length_slice {xs : List α} {start n : Nat} (h : start + n ≤ xs.length) :
    ((xs.drop start).take n).length = n := by simp; omega

lemma getD_slice {xs : List α} {start n i : Nat} (d : α) (h : i < n) :
    ((xs.drop start).take n).getD i d = xs.getD (start + i) d := by
  simp [h]

lemma splice?_eq {xs ys : List α} {start : Nat} (h : start + ys.length ≤ xs.length) :
    splice? xs start ys = some (xs.take start ++ ys ++ xs.drop (start + ys.length)) := if_pos h

/-- An overwrite keeps the length and changes the elements of its own range only. -/
lemma splice?_spec {xs ys : List α} {start : Nat} (h : start + ys.length ≤ xs.length) (d : α) :
    ∃ zs, splice? xs start ys = some zs ∧ zs.length = xs.length ∧
      ∀ i, zs.getD i d =
        if start ≤ i ∧ i < start + ys.length then ys.getD (i - start) d else xs.getD i d := by
  refine ⟨_, splice?_eq h, by simp; omega, fun i => ?_⟩
  have hl : (xs.take start).length = start := by simp; omega
  split
  · rename_i hi
    rw [List.getD_eq_getElem?_getD, List.append_assoc, List.getElem?_append_right (by omega), hl,
      List.getElem?_append_left (by omega), ← List.getD_eq_getElem?_getD]
  · rename_i hi
    rcases Nat.lt_or_ge i start with hlt | hge
    · rw [List.getD_eq_getElem?_getD, List.append_assoc, List.getElem?_append_left (by omega),
        List.getElem?_take_of_lt hlt, ← List.getD_eq_getElem?_getD]
    · rw [List.getD_eq_getElem?_getD, List.getElem?_append_right (by simp; omega),
        List.getElem?_drop, ← List.getD_eq_getElem?_getD]
      congr 1
      simp
      omega

/-- The bits of an overwritten byte string. -/
lemma bitAt_splice (xs ys : List (BitVec 8)) (start : Nat) (h : start + ys.length ≤ xs.length) :
    ∃ zs, splice? xs start ys = some zs ∧ zs.length = xs.length ∧
      ∀ k, bitAt zs k =
        if 8 * start ≤ k ∧ k < 8 * (start + ys.length) then bitAt ys (k - 8 * start)
        else bitAt xs k := by
  obtain ⟨zs, hzs, hlength, hget⟩ := splice?_spec h 0
  refine ⟨zs, hzs, hlength, fun k => ?_⟩
  unfold bitAt
  rw [hget]
  split_ifs with hbyte hbit hbit
  · rw [show (k - 8 * start) / 8 = k / 8 - start by omega,
      show (k - 8 * start) % 8 = k % 8 by omega]
  · exact absurd ⟨by omega, by omega⟩ hbit
  · exact absurd ⟨by omega, by omega⟩ hbyte
  · rfl

end Packed
