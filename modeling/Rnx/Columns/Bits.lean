import Rnx.Columns.Lease

/-!
# Packed bit blocks

Reads and appends at any alignment, by the bits they yield.  A read is the addressed bits with zeros
above them; an append to an output that is zero from its start on writes just these bits.
-/

namespace Rnx.Columns

open Packed

variable {bytes out : List (BitVec 8)} {w : Word} {words : List Word} {start len shift i j k : Nat}

/-! ## Words of bytes -/

lemma getLsbD_lowMask (h : len ≤ 64) (j : Nat) : (lowMask len).getLsbD j = decide (j < len) := by
  unfold lowMask
  split_ifs with hzero
  · subst hzero
    exact (BitVec.getLsbD_zero).trans (decide_eq_false (Nat.not_lt_zero j)).symm
  · rw [BitVec.getLsbD_ushiftRight, BitVec.getLsbD_allOnes]
    exact decide_eq_decide.2 (by omega)

lemma getLsbD_alignedWord (bytes : List (BitVec 8)) (i : Nat) (hj : j < 64) :
    (BitSlice.alignedWord bytes i).getLsbD j = bitAt bytes (64 * i + j) := by
  unfold BitSlice.alignedWord
  rw [getLsbD_leWord _ hj, bitAt_take, bitAt_drop, decide_eq_true (by omega), Bool.true_and,
    ← Nat.mul_assoc]

/-- A bit of a word that is shifted down, with the byte after it. -/
lemma getLsbD_shifted (w : Word) (b : BitVec 8) (hshift : 0 < shift) (hlt : shift < 8) (hj : j < 64) :
    (w >>> shift ||| b.setWidth 64 <<< (64 - shift)).getLsbD j =
      if shift + j < 64 then w.getLsbD (shift + j) else b.getLsbD (shift + j - 64) := by
  rw [BitVec.getLsbD_or, BitVec.getLsbD_ushiftRight, BitVec.getLsbD_shiftLeft,
    BitVec.getLsbD_setWidth]
  split_ifs with hlow
  · rw [decide_eq_true (show j < 64 - shift by omega)]
    simp
  · rw [BitVec.getLsbD_of_ge w _ (by omega), decide_eq_true hj,
      decide_eq_false (show ¬ j < 64 - shift by omega), decide_eq_true (show j - (64 - shift) < 64 by omega),
      show j - (64 - shift) = shift + j - 64 by omega]
    simp

lemma getLsbD_shiftedWord (bytes : List (BitVec 8)) (i : Nat) (hshift : 0 < shift) (hlt : shift < 8)
    (hj : j < 64) :
    (BitSlice.shiftedWord bytes shift i).getLsbD j = bitAt bytes (64 * i + (shift + j)) := by
  unfold BitSlice.shiftedWord
  rw [getLsbD_shifted _ _ hshift hlt hj]
  split_ifs with hlow
  · exact getLsbD_alignedWord bytes i hlow
  · unfold bitAt
    rw [show (64 * i + (shift + j)) / 8 = 8 * i + 8 by omega,
      show (64 * i + (shift + j)) % 8 = shift + j - 64 by omega]

/-! ## Reads -/

namespace BitSlice

variable (s : BitSlice)

/-- The bytes that hold the bits are in the slice. -/
lemma covering_eq (h : start + len ≤ s.len) :
    ∃ bytes, s.covering start len = some bytes ∧
      bytes.length = (s.offset + start + len + 7) / 8 - (s.offset + start) / 8 ∧
      ∀ k, k < (s.offset + start) % 8 + len →
        bitAt bytes k = bitAt s.bytes (8 * ((s.offset + start) / 8) + k) := by
  have hstored := s.stored
  have hrange : (s.offset + start) / 8 +
      ((s.offset + start + len + 7) / 8 - (s.offset + start) / 8) ≤ s.bytes.length := by omega
  refine ⟨_, slice?_eq hrange, length_slice hrange, fun k hk => ?_⟩
  rw [bitAt_take, bitAt_drop, decide_eq_true (by omega), Bool.true_and]

/-- **A word is the addressed bits.** -/
lemma word_eq (hlen : len ≤ 64) (h : start + len ≤ s.len) :
    ∃ w, s.word start len = some w ∧
      ∀ j, w.getLsbD j = (decide (j < len) && bitAt s.bytes (s.offset + start + j)) := by
  by_cases hzero : len = 0
  · refine ⟨0, ?_, fun j => ?_⟩
    · unfold word
      rw [if_neg (not_not.2 ⟨hlen, by omega, by omega⟩), if_pos hzero]
    · rw [hzero, decide_eq_false (Nat.not_lt_zero j), Bool.false_and]
      exact BitVec.getLsbD_zero
  · obtain ⟨bytes, hbytes, hlength, hbits⟩ := s.covering_eq h
    have hdivmod := Nat.div_add_mod (s.offset + start) 8
    generalize hshift : (s.offset + start) % 8 = shift at hbits hdivmod
    have hfirst : ∀ k, k < 64 → (leWord (bytes.take 8)).getLsbD k = bitAt bytes k := fun k hk => by
      rw [getLsbD_leWord _ hk, bitAt_take, decide_eq_true (by omega), Bool.true_and]
    refine ⟨(if bytes.length = 9 then
        leWord (bytes.take 8) >>> shift ||| (bytes.getD 8 0).setWidth 64 <<< (64 - shift)
      else leWord (bytes.take 8) >>> shift) &&& lowMask len, ?_, fun j => ?_⟩
    · unfold word
      rw [if_neg (not_not.2 ⟨hlen, by omega, by omega⟩), if_neg hzero, hbytes, hshift]
      rfl
    · rw [BitVec.getLsbD_and, getLsbD_lowMask hlen]
      by_cases hj : j < len
      · rw [decide_eq_true hj, Bool.and_true, Bool.true_and, ← hdivmod, Nat.add_assoc,
          ← hbits (shift + j) (by omega)]
        split_ifs with hnine
        · have hpos : 0 < shift := by omega
          rw [getLsbD_shifted _ _ hpos (by omega) (by omega)]
          split_ifs with hlow
          · exact hfirst _ hlow
          · unfold bitAt
            rw [show (shift + j) / 8 = 8 by omega, show (shift + j) % 8 = shift + j - 64 by omega]
        · rw [BitVec.getLsbD_ushiftRight, hfirst _ (by omega)]
      · rw [decide_eq_false hj, Bool.and_false, Bool.false_and]

/-- A word of a copy loop of `readWords` is 64 addressed bits. -/
lemma getLsbD_readWord {bytes : List (BitVec 8)} (hlt : shift < 8) (i : Nat) (hj : j < 64) :
    (if shift = 0 then alignedWord bytes i else shiftedWord bytes shift i).getLsbD j =
      bitAt bytes (64 * i + (shift + j)) := by
  split_ifs with hshift
  · rw [hshift, Nat.zero_add, getLsbD_alignedWord bytes i hj]
  · exact getLsbD_shiftedWord bytes i (Nat.pos_of_ne_zero hshift) hlt hj

/-- **A block of words is the addressed bits.** -/
lemma readWords_eq (h : start + len ≤ s.len) :
    ∃ words, s.readWords start len = some words ∧ words.length = (len + 63) / 64 ∧
      ∀ j, wordBit words j = (decide (j < len) && bitAt s.bytes (s.offset + start + j)) := by
  obtain ⟨bytes, hbytes, hlength, hbits⟩ := s.covering_eq h
  have hdivmod := Nat.div_add_mod (s.offset + start) 8
  have hlt := Nat.mod_lt (s.offset + start) (show 0 < 8 by omega)
  have hread : s.readWords start len =
      if len % 64 = 0 then some ((List.range (len / 64)).map fun i =>
        if (s.offset + start) % 8 = 0 then alignedWord bytes i
        else shiftedWord bytes ((s.offset + start) % 8) i)
      else (s.word (start + len / 64 * 64) (len % 64)).map fun last =>
        ((List.range (len / 64)).map fun i =>
          if (s.offset + start) % 8 = 0 then alignedWord bytes i
          else shiftedWord bytes ((s.offset + start) % 8) i) ++ [last] := by
    unfold readWords
    rw [if_neg (not_not.2 ⟨by omega, by omega⟩), hbytes]
    simp only [Option.bind_eq_bind, Option.bind_some]
    cases s.word (start + len / 64 * 64) (len % 64) <;> rfl
  rw [hread]
  generalize (s.offset + start) % 8 = shift at hbits hdivmod hlt
  set full := (List.range (len / 64)).map fun i =>
    if shift = 0 then alignedWord bytes i else shiftedWord bytes shift i with hfull
  have hlengthFull : full.length = len / 64 := by rw [hfull, List.length_map, List.length_range]
  -- The bits of the whole words.
  have hwhole : ∀ j, j < 64 * (len / 64) →
      wordBit full j = bitAt s.bytes (s.offset + start + j) := fun j hj => by
    have hget : full.getD (j / 64) 0 =
        if shift = 0 then alignedWord bytes (j / 64) else shiftedWord bytes shift (j / 64) := by
      rw [hfull, List.getD_eq_getElem?_getD, List.getElem?_map,
        List.getElem?_range (show j / 64 < len / 64 by omega)]
      rfl
    rw [wordBit, hget, getLsbD_readWord hlt _ (Nat.mod_lt _ (by omega)), hbits _ (by omega)]
    congr 1
    omega
  split_ifs with htail
  · refine ⟨full, rfl, by omega, fun j => ?_⟩
    by_cases hj : j < len
    · rw [decide_eq_true hj, Bool.true_and, hwhole j (by omega)]
    · rw [decide_eq_false hj, Bool.false_and]
      exact wordBit_of_le (by omega)
  · obtain ⟨last, hlast, hlastBits⟩ :=
      s.word_eq (show len % 64 ≤ 64 by omega) (show start + len / 64 * 64 + len % 64 ≤ s.len by omega)
    refine ⟨full ++ [last], by rw [hlast, Option.map_some], ?_, fun j => ?_⟩
    · rw [List.length_append, hlengthFull, List.length_singleton]
      omega
    · rw [wordBit_append, hlengthFull]
      split_ifs with hj
      · rw [hwhole j hj, decide_eq_true (show j < len by omega), Bool.true_and]
      · rw [wordBit_cons, wordBit_nil]
        split_ifs with hin
        · rw [hlastBits, show decide (j - 64 * (len / 64) < len % 64) = decide (j < len) from
            decide_eq_decide.2 (by omega)]
          congr 2
          omega
        · rw [decide_eq_false (show ¬ j < len by omega), Bool.false_and]

end BitSlice

/-! ## Appends -/

/-- The output with the `len` bits from `start` on written, in a string of zeros from there on. -/
def Appended (out zs : List (BitVec 8)) (start len : Nat) (bit : Nat → Bool) : Prop :=
  zs.length = out.length ∧
    ∀ k, bitAt zs k = if k < start then bitAt out k else decide (k < start + len) && bit (k - start)

lemma getLsbD_masked (hlen : len ≤ 64) (hj : j < 64) :
    ((w &&& lowMask len) <<< shift).getLsbD j =
      (decide (shift ≤ j) && (decide (j < shift + len) && w.getLsbD (j - shift))) := by
  rw [BitVec.getLsbD_shiftLeft, BitVec.getLsbD_and, getLsbD_lowMask hlen, decide_eq_true hj,
    Bool.true_and]
  by_cases hshift : shift ≤ j
  · rw [decide_eq_true hshift, decide_eq_false (show ¬ j < shift by omega),
      show decide (j - shift < len) = decide (j < shift + len) from decide_eq_decide.2 (by omega),
      Bool.not_false, Bool.true_and, Bool.true_and, Bool.and_comm]
  · rw [decide_eq_false hshift, decide_eq_true (show j < shift by omega), Bool.not_true,
      Bool.false_and, Bool.false_and]

/-- The bytes that an unaligned append stores: the earlier bits of the first byte, then the bits. -/
lemma bitAt_window {bytes : List (BitVec 8)} (hlen : len ≤ 64) (hshift : shift < 8)
    (hbytes : bytes.length = (shift + len + 7) / 8) (hpos : 0 < len)
    (hzero : ∀ k, shift ≤ k → bitAt bytes k = false) (k : Nat) :
    bitAt ((bytes.getD 0 0 ||| (leBytes ((w &&& lowMask len) <<< shift)).getD 0 0) ::
        ((leBytes ((w &&& lowMask len) <<< shift)).drop 1).take (min bytes.length 8 - 1) ++
      if bytes.length = 9 then [((w &&& lowMask len) >>> (64 - shift)).setWidth 8] else []) k =
      if k < shift then bitAt bytes k else decide (k < shift + len) && w.getLsbD (k - shift) := by
  have hfirst : ∀ xs : List (BitVec 8), ∀ i, i < 8 → (xs.getD 0 0).getLsbD i = bitAt xs i :=
    fun xs i hi => by
      unfold bitAt
      rw [Nat.div_eq_of_lt hi, Nat.mod_eq_of_lt hi]
  have hmiddle : (((leBytes ((w &&& lowMask len) <<< shift)).drop 1).take
      (min bytes.length 8 - 1)).length = min bytes.length 8 - 1 := by
    rw [List.length_take, List.length_drop, length_leBytes]
    omega
  rw [List.cons_append, bitAt_cons, BitVec.getLsbD_or]
  by_cases hbyte : k < 8
  · rw [if_pos hbyte, hfirst _ k hbyte, hfirst _ k hbyte, bitAt_leBytes,
      getLsbD_masked hlen (by omega)]
    split_ifs with hbefore
    · rw [decide_eq_false (show ¬ shift ≤ k by omega), Bool.false_and, Bool.or_false]
    · rw [hzero k (by omega), decide_eq_true (show shift ≤ k by omega), Bool.false_or,
        Bool.true_and]
  · rw [if_neg hbyte, if_neg (show ¬ k < shift by omega), bitAt_append, hmiddle]
    split_ifs with hword hnine
    · rw [bitAt_take, bitAt_drop, decide_eq_true hword, Bool.true_and, bitAt_leBytes,
        show 8 * 1 + (k - 8) = k by omega, getLsbD_masked hlen (by omega),
        decide_eq_true (show shift ≤ k by omega), Bool.true_and]
    · -- The ninth byte holds what the shift pushed out of the word.
      rw [bitAt_cons, bitAt_nil]
      split_ifs with hlast
      · rw [BitVec.getLsbD_setWidth, BitVec.getLsbD_ushiftRight, BitVec.getLsbD_and,
          getLsbD_lowMask hlen, decide_eq_true hlast, Bool.true_and, Bool.and_comm,
          show 64 - shift + (k - 8 - 8 * (min bytes.length 8 - 1)) = k - shift by omega]
        rw [show decide (k - shift < len) = decide (k < shift + len) from
          decide_eq_decide.2 (by omega)]
      · rw [decide_eq_false (show ¬ k < shift + len by omega), Bool.false_and]
    · rw [bitAt_nil, decide_eq_false (show ¬ k < shift + len by omega), Bool.false_and]

/-- Bytes that hold the earlier bits of the first byte, and then the bits, append the bits. -/
lemma appended_splice {stored : List (BitVec 8)} {bit : Nat → Bool}
    (hroom : start / 8 + stored.length ≤ out.length)
    (hlength : start % 8 + len ≤ 8 * stored.length)
    (hzero : ∀ k, start ≤ k → bitAt out k = false)
    (hstored : ∀ k, bitAt stored k =
      if k < start % 8 then bitAt out (8 * (start / 8) + k)
      else decide (k < start % 8 + len) && bit (k - start % 8)) :
    ∃ zs, splice? out (start / 8) stored = some zs ∧ Appended out zs start len bit := by
  obtain ⟨zs, hzs, hsame, hbits⟩ := bitAt_splice out stored (start / 8) hroom
  refine ⟨zs, hzs, hsame, fun k => ?_⟩
  have hdivmod := Nat.div_add_mod start 8
  rw [hbits]
  by_cases hin : 8 * (start / 8) ≤ k ∧ k < 8 * (start / 8 + stored.length)
  · rw [if_pos hin, hstored]
    by_cases hk : k < start
    · rw [if_pos (by omega), if_pos hk, Nat.add_sub_cancel' hin.1]
    · rw [if_neg (by omega), if_neg hk, Nat.sub_sub, hdivmod,
        show decide (k - 8 * (start / 8) < start % 8 + len) = decide (k < start + len) from
          decide_eq_decide.2 (by omega)]
  · rw [if_neg hin]
    split_ifs with hk
    · rfl
    · rw [hzero k (by omega), decide_eq_false (show ¬ k < start + len by omega), Bool.false_and]

/-- **A word is appended exactly.** -/
lemma appendWord_eq (w : Word) (hlen : len ≤ 64) (hroom : (start + len + 7) / 8 ≤ out.length)
    (hzero : ∀ k, start ≤ k → bitAt out k = false) :
    ∃ zs, appendWord out start len w = some zs ∧ Appended out zs start len w.getLsbD := by
  unfold appendWord
  rw [if_neg (Nat.not_lt.2 hlen)]
  by_cases hempty : len = 0
  · refine ⟨out, if_pos hempty, rfl, fun k => ?_⟩
    split_ifs with hk
    · rfl
    · rw [hzero k (by omega), decide_eq_false (show ¬ k < start + len by omega), Bool.false_and]
  rw [if_neg hempty]
  by_cases haligned : len = 64 ∧ start % 8 = 0
  · rw [if_pos haligned]
    refine appended_splice (by rw [length_leBytes]; omega) (by rw [length_leBytes]; omega) hzero
      fun k => ?_
    rw [bitAt_leBytes, haligned.1, haligned.2, if_neg (Nat.not_lt_zero k), Nat.zero_add,
      Nat.sub_zero]
    by_cases hk : k < 64
    · rw [decide_eq_true hk, Bool.true_and]
    · rw [BitVec.getLsbD_of_ge w _ (by omega), Bool.and_false]
  · have hfits : start / 8 + ((start + len + 7) / 8 - start / 8) ≤ out.length := by omega
    rw [if_neg haligned, slice?_eq hfits]
    have hlt := Nat.mod_lt start (show 0 < 8 by omega)
    set bytes := (out.drop (start / 8)).take ((start + len + 7) / 8 - start / 8) with hbytes
    have hlength : bytes.length = (start % 8 + len + 7) / 8 := by
      rw [hbytes, length_slice hfits]
      omega
    have hbelow : ∀ k, bitAt bytes k =
        (decide (k < 8 * ((start + len + 7) / 8 - start / 8)) && bitAt out (8 * (start / 8) + k)) :=
      fun k => by rw [hbytes, bitAt_take, bitAt_drop]
    have hwindow := bitAt_window (w := w) hlen hlt hlength (by omega)
      fun k hk => by rw [hbelow, hzero _ (by omega), Bool.and_false]
    change ∃ zs, splice? out (start / 8) ((bytes.getD 0 0 |||
        (leBytes ((w &&& lowMask len) <<< (start % 8))).getD 0 0) ::
        ((leBytes ((w &&& lowMask len) <<< (start % 8))).drop 1).take (min bytes.length 8 - 1) ++
      (if bytes.length = 9 then [((w &&& lowMask len) >>> (64 - start % 8)).setWidth 8] else [])) =
        some zs ∧ _
    generalize hstored : (bytes.getD 0 0 |||
        (leBytes ((w &&& lowMask len) <<< (start % 8))).getD 0 0) ::
        ((leBytes ((w &&& lowMask len) <<< (start % 8))).drop 1).take (min bytes.length 8 - 1) ++
      (if bytes.length = 9 then [((w &&& lowMask len) >>> (64 - start % 8)).setWidth 8] else []) =
        stored at hwindow ⊢
    have hcount : stored.length = (start % 8 + len + 7) / 8 := by
      rw [← hstored, List.length_append, List.length_cons, List.length_take, List.length_drop,
        length_leBytes, ← hlength]
      split_ifs with hnine
      · rw [hnine, List.length_singleton]
        rfl
      · rw [List.length_nil]
        omega
    refine appended_splice (by rw [hcount]; omega) (by rw [hcount]; omega) hzero fun k => ?_
    rw [hwindow, hbelow]
    split_ifs with hk
    · rw [decide_eq_true (by omega), Bool.true_and]
    · rfl

/-! ## Blocks of words -/

/-- The shifted words come after the carried bits. -/
lemma bitAt_carryWords (hshift : 0 < shift) (hlt : shift < 8) (words : List Word) (carry : Word)
    (hcarry : ∀ j, shift ≤ j → carry.getLsbD j = false) (k : Nat) :
    (carryWords shift words carry).1.length = 8 * words.length ∧
      bitAt ((carryWords shift words carry).1 ++ [(carryWords shift words carry).2.setWidth 8]) k =
        if k < shift then carry.getLsbD k else wordBit words (k - shift) := by
  induction words generalizing carry k with
  | nil =>
    refine ⟨rfl, ?_⟩
    rw [carryWords, List.nil_append, bitAt_cons, bitAt_nil, BitVec.getLsbD_setWidth, wordBit_nil]
    split_ifs with hbyte hk hk
    · rw [decide_eq_true hbyte, Bool.true_and]
    · rw [hcarry k (by omega), Bool.and_false]
    · omega
    · rfl
  | cons w words ih =>
    have hnext : ∀ j, shift ≤ j → (w >>> (64 - shift)).getLsbD j = false := fun j hj => by
      rw [BitVec.getLsbD_ushiftRight, BitVec.getLsbD_of_ge w _ (by omega)]
    obtain ⟨hlength, -⟩ := ih (w >>> (64 - shift)) hnext 0
    refine ⟨?_, ?_⟩
    · rw [carryWords, List.length_append, length_leBytes, hlength, List.length_cons]
      omega
    · rw [carryWords, List.append_assoc, bitAt_append, length_leBytes, bitAt_leBytes,
        (ih _ hnext _).2, BitVec.getLsbD_or, BitVec.getLsbD_shiftLeft,
        BitVec.getLsbD_ushiftRight, wordBit_cons]
      by_cases hword : k < 64
      · rw [if_pos (show k < 8 * 8 by omega), decide_eq_true hword, Bool.true_and,
          if_pos (show k - shift < 64 by omega)]
        split_ifs with hk
        · rw [decide_eq_true hk, Bool.not_true, Bool.false_and, Bool.false_or]
        · rw [hcarry k (by omega), Bool.or_false, decide_eq_false hk, Bool.not_false, Bool.true_and]
      · rw [if_neg (show ¬ k < 8 * 8 by omega), if_neg (show ¬ k < shift by omega)]
        by_cases hk : k - 8 * 8 < shift
        · rw [if_pos hk, if_pos (show k - shift < 64 by omega)]
          congr 1
          omega
        · rw [if_neg hk, if_neg (show ¬ k - shift < 64 by omega)]
          congr 1
          omega

/-- **The whole words are appended exactly.** -/
lemma appendFull_eq (words : List Word) (hroom : (start + 64 * words.length + 7) / 8 ≤ out.length)
    (hzero : ∀ k, start ≤ k → bitAt out k = false) :
    ∃ zs, appendFull out start words = some zs ∧
      Appended out zs start (64 * words.length) (wordBit words) := by
  have hbits : ∀ k, wordBit words k =
      (decide (k < 64 * words.length) && wordBit words k) := fun k => by
    by_cases hk : k < 64 * words.length
    · rw [decide_eq_true hk, Bool.true_and]
    · rw [wordBit_of_le (by omega), Bool.and_false]
  unfold appendFull
  by_cases haligned : start % 8 = 0
  · rw [if_pos haligned]
    refine appended_splice (by rw [length_flatMap_leBytes]; omega)
      (by rw [length_flatMap_leBytes]; omega) hzero fun k => ?_
    rw [bitAt_flatMap_leBytes, haligned, if_neg (Nat.not_lt_zero k), Nat.zero_add, Nat.sub_zero]
    exact hbits k
  · have hfits : start / 8 + 1 ≤ out.length := by omega
    rw [if_neg haligned, slice?_eq hfits]
    have hlt := Nat.mod_lt start (show 0 < 8 by omega)
    have hcarry : ∀ j, ((((out.drop (start / 8)).take 1).getD 0 0).setWidth 64).getLsbD j =
        (decide (j < 8) && bitAt out (8 * (start / 8) + j)) := fun j => by
      rw [getD_slice 0 (show 0 < 1 by omega), BitVec.getLsbD_setWidth]
      by_cases hj : j < 8
      · rw [decide_eq_true hj, decide_eq_true (show j < 64 by omega), Bool.true_and, Bool.true_and]
        unfold bitAt
        rw [show (8 * (start / 8) + j) / 8 = start / 8 + 0 by omega,
          show (8 * (start / 8) + j) % 8 = j by omega]
      · rw [decide_eq_false hj, BitVec.getLsbD_of_ge _ _ (by omega), Bool.and_false, Bool.false_and]
    have hstored := bitAt_carryWords (Nat.pos_of_ne_zero haligned) hlt words
      ((((out.drop (start / 8)).take 1).getD 0 0).setWidth 64)
      fun j hj => by rw [hcarry, hzero _ (by omega), Bool.and_false]
    have hcount : ((carryWords (start % 8) words
        ((((out.drop (start / 8)).take 1).getD 0 0).setWidth 64)).1 ++
        [(carryWords (start % 8) words
          ((((out.drop (start / 8)).take 1).getD 0 0).setWidth 64)).2.setWidth 8]).length =
        8 * words.length + 1 := by
      rw [List.length_append, (hstored 0).1, List.length_singleton]
    refine appended_splice (by rw [hcount]; omega) (by rw [hcount]; omega) hzero fun k => ?_
    rw [(hstored k).2]
    split_ifs with hk
    · rw [hcarry, decide_eq_true (by omega), Bool.true_and]
    · rw [show decide (k < start % 8 + 64 * words.length) =
        decide (k - start % 8 < 64 * words.length) from decide_eq_decide.2 (by omega)]
      exact hbits _

/-- **A block of words is appended exactly.** -/
lemma appendWords_eq (words : List Word) (hwords : words.length = (len + 63) / 64)
    (hroom : (start + len + 7) / 8 ≤ out.length)
    (hzero : ∀ k, start ≤ k → bitAt out k = false) :
    ∃ zs, appendWords out start len words = some zs ∧ Appended out zs start len (wordBit words) := by
  by_cases hempty : len = 0
  · refine ⟨out, ?_, rfl, fun k => ?_⟩
    · unfold appendWords
      rw [if_neg (not_not.2 hwords), if_pos hempty]
    · split_ifs with hk
      · rfl
      · rw [hzero k (by omega), decide_eq_false (show ¬ k < start + len by omega), Bool.false_and]
  have htaken : (words.take (len / 64)).length = len / 64 := by
    rw [List.length_take]
    omega
  obtain ⟨mid, hmid, hsame, hbits⟩ := appendFull_eq (words.take (len / 64))
    (by rw [htaken]; omega) hzero
  rw [htaken] at hbits
  have hfull : ∀ k, start ≤ k → bitAt mid k =
      (decide (k < start + 64 * (len / 64)) && wordBit words (k - start)) := fun k hk => by
    rw [hbits, if_neg (Nat.not_lt.2 hk)]
    by_cases hin : k < start + 64 * (len / 64)
    · rw [wordBit_take, decide_eq_true (show k - start < 64 * (len / 64) by omega), Bool.true_and]
    · rw [decide_eq_false hin, Bool.false_and, Bool.false_and]
  have hunfold : appendWords out start len words =
      if len % 64 = 0 then some mid
      else appendWord mid (start + len / 64 * 64) (len % 64) (words.getD (len / 64) 0) := by
    unfold appendWords
    rw [if_neg (not_not.2 hwords), if_neg hempty]
    simp only [hmid, Option.bind_eq_bind, Option.bind_some]
  rw [hunfold]
  split_ifs with htail
  · refine ⟨mid, rfl, hsame, fun k => ?_⟩
    split_ifs with hk
    · rw [hbits, if_pos hk]
    · rw [hfull k (by omega), show 64 * (len / 64) = len by omega]
  · have hrest : ∀ k, start + len / 64 * 64 ≤ k → bitAt mid k = false := fun k hk => by
      rw [hfull k (by omega), decide_eq_false (show ¬ k < start + 64 * (len / 64) by omega),
        Bool.false_and]
    obtain ⟨zs, hzs, hlength, hlast⟩ := appendWord_eq (words.getD (len / 64) 0)
      (show len % 64 ≤ 64 by omega) (by omega) hrest
    refine ⟨zs, hzs, hlength.trans hsame, fun k => ?_⟩
    rw [hlast]
    by_cases hk : k < start
    · rw [if_pos (show k < start + len / 64 * 64 by omega), if_pos hk, hbits, if_pos hk]
    · rw [if_neg hk]
      split_ifs with hin
      · rw [hfull k (by omega), decide_eq_true (show k < start + 64 * (len / 64) by omega),
          decide_eq_true (show k < start + len by omega)]
      · rw [show start + len / 64 * 64 + len % 64 = start + len by omega]
        by_cases hend : k < start + len
        · rw [show k - start = 64 * (len / 64) + (k - (start + len / 64 * 64)) by omega,
            wordBit_of_lt (by omega)]
        · rw [decide_eq_false hend, Bool.false_and, Bool.false_and]

/-- **Packed blocks are read and appended exactly**: at every alignment and for every length, a read
is the addressed bits with zeros above them, and an append to an output that is zero from its start
on keeps the bits before it, writes the given bits and leaves the later bits zero. -/
theorem packed_exact (s : BitSlice) (start len : Nat) (hread : start + len ≤ s.len)
    (out : List (BitVec 8)) (pos n : Nat) (words : List Word)
    (hwords : words.length = (n + 63) / 64) (hroom : (pos + n + 7) / 8 ≤ out.length)
    (hzero : ∀ k, pos ≤ k → bitAt out k = false) :
    (len ≤ 64 → ∃ w, s.word start len = some w ∧
      ∀ j, w.getLsbD j = (decide (j < len) && bitAt s.bytes (s.offset + start + j))) ∧
    (∃ read, s.readWords start len = some read ∧ read.length = (len + 63) / 64 ∧
      ∀ j, wordBit read j = (decide (j < len) && bitAt s.bytes (s.offset + start + j))) ∧
    ∃ zs, appendWords out pos n words = some zs ∧ zs.length = out.length ∧
      ∀ k, bitAt zs k =
        if k < pos then bitAt out k else decide (k < pos + n) && wordBit words (k - pos) :=
  ⟨fun hlen => s.word_eq hlen hread, s.readWords_eq hread, appendWords_eq words hwords hroom hzero⟩

/-- Five bits across two bytes, appended behind a set bit. -/
theorem packed_exact_unaligned :
    (∃ read, (BitSlice.mk [0xb0, 0x01] 4 5 (by decide) (by decide)).readWords 0 5 = some read ∧
      read.length = (5 + 63) / 64 ∧
      ∀ j, wordBit read j = (decide (j < 5) && bitAt [0xb0, 0x01] (4 + 0 + j))) ∧
    ∃ zs, appendWords [0x01, 0x00] 1 5 [0x1b] = some zs ∧ zs.length = 2 ∧
      ∀ k, bitAt zs k = if k < 1 then bitAt [0x01, 0x00] k
        else decide (k < 1 + 5) && wordBit [0x1b] (k - 1) :=
  (packed_exact (BitSlice.mk [0xb0, 0x01] 4 5 (by decide) (by decide)) 0 5 (by decide)
    [0x01, 0x00] 1 5 [0x1b] rfl (by decide) fun k hk => by
      rw [bitAt_cons, bitAt_cons, bitAt_nil]
      split_ifs with hfirst hsecond
      · have hone := BitVec.getLsbD_one (w := 8) (i := k)
        rw [decide_eq_false (show ¬ k = 0 by omega), Bool.and_false] at hone
        exact hone
      · exact BitVec.getLsbD_zero
      · rfl).2

end Rnx.Columns
