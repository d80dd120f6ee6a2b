import Rnx.Store.Places
import Rnx.Store.Reversed
import Rnx.Store.StructuralOrder

/-!
# The items behind an index

An item that is read by its index is the one that iterating comes to: for the ranges whose items a
comparison reads, and for the sources that are read from the back.
-/

namespace Rnx

open ErrState

/-! ## Machine integers -/

lemma wrapU32_eq {n : Int} (h : 0 ≤ n) (h' : n < 2 ^ 32) : (wrapU32 n : Int) = n := by
  unfold wrapU32
  omega

lemma U64.wrap_val {n : Int} (h : 0 ≤ n) (h' : n < 2 ^ 64) : ((U64.wrap n).val : Int) = n := by
  unfold U64.wrap
  dsimp only
  omega

lemma I64.absDiff_val {a b : I64} (h : b.val ≤ a.val) :
    ((a.absDiff b).val : Int) = a.val - b.val := by
  unfold I64.absDiff
  dsimp only
  omega

/-- A sum that fits does not wrap. -/
lemma I64.wrappingAdd_val {a : I64} {n : U64} (h : a.val + n.val < 2 ^ 63) :
    (a.wrappingAdd n).val = a.val + n.val := by
  have hlower := a.lower
  show (BitVec.ofInt 64 a.val + BitVec.ofNat 64 n.val).toInt = _
  rw [← BitVec.ofInt_natCast, ← BitVec.ofInt_add, BitVec.toInt_ofInt]
  apply Int.bmod_eq_of_le
  · omega
  · omega

namespace Store

open RangeKind (ordinal_eq toNat_valid)

/-- The surrogates between two codes are what their ordinals leave out. -/
lemma ordinal_gap {a b : Char} (h : a.toNat < b.toNat) :
    min b.toNat 0xe000 - max a.toNat 0xd800 ≤ b.toNat - a.toNat ∧
    (b.ordinal : Nat) - a.ordinal =
      b.toNat - a.toNat - (min b.toNat 0xe000 - max a.toNat 0xd800) := by
  rw [ordinal_eq, ordinal_eq]
  obtain ha | ⟨ha, -⟩ := toNat_valid a
  · rw [if_pos ha, Nat.max_eq_right ha.le]
    obtain hb | ⟨hb, -⟩ := toNat_valid b
    · rw [if_pos hb, Nat.min_eq_left (by omega)]
      omega
    · rw [if_neg (by omega), Nat.min_eq_right (by omega)]
      omega
  · rw [if_neg (by omega), if_neg (by omega), Nat.max_eq_left (by omega),
      Nat.min_eq_right (by omega)]
    omega

lemma toNat_lt (c : Char) : c.toNat < 0x110000 := by
  obtain h | ⟨-, h⟩ := toNat_valid c
  · exact h.trans (by decide)
  · exact h

/-- The characters of a range are those between the two ordinals. -/
lemma charCount_val (a b : Char) : (charCount a b).val = (b.ordinal : Nat) - a.ordinal := by
  unfold charCount
  split_ifs with hle
  · show 0 = _
    have := Char.le_iff_ordinal_le.1 (show b ≤ a from hle)
    exact (Nat.sub_eq_zero_of_le this).symm
  · have hlt : a.toNat < b.toNat := Nat.lt_of_not_le hle
    obtain ⟨hgap, hordinal⟩ := ordinal_gap hlt
    have hb := toNat_lt b
    rw [hordinal]
    dsimp only
    generalize min b.toNat 0xe000 - max a.toNat 0xd800 = gap at hgap ⊢
    generalize a.toNat = x at hlt hgap ⊢
    generalize b.toNat = y at hlt hgap hb ⊢
    rw [wrapU32_eq (n := (y : Int) - x) (by omega) (by omega)]
    rw [wrapU32_eq (n := (y : Int) - x - gap) (by omega) (by omega)]
    have hwide := U64.wrap_val (n := (y : Int) - x - gap) (by omega) (by omega)
    omega

/-! ## Reading -/

/-- The terminals of a reversed source read the items `vs`. -/
structure Reads (s : Store) (source : Value) (vs : List Value) : Prop where
  empty : s.revEmpty source = .ok vs.isEmpty
  last : s.revLast source = .ok (vs.length - 1)
  at_offset : ∀ k : U64, revAt source (.u64 k) s =
    match vs[k.val]? with
    | some v => retained v s
    | none => (.error (err .invalidCode), s)

variable {α : Type} {K : RangeKind α} {a c : α} {n k : Nat} {s : Store} {source : Value}

lemma read_item (hroom : K.place a + n ≤ K.place K.top + 1) (hk : k < n)
    (hc : K.place c = K.place a + k) : ((K.items n a).map K.value)[k]? = some (K.value c) := by
  rw [List.getElem?_map, (Counting.Line.getElem?_items hroom).2 ⟨hk, hc⟩]
  rfl

lemma read_past (hroom : K.place a + n ≤ K.place K.top + 1) (hk : ¬ k < n) :
    ((K.items n a).map K.value)[k]? = none := by
  rw [List.getElem?_eq_none]
  rw [List.length_map, Counting.Line.length_items hroom]
  exact Nat.le_of_not_lt hk

lemma guarded {c : Prop} [Decidable c] {β : Type} {e : Error} {m : M β} :
    (guardWith c e >>= fun _ => m) s = if c then m s else (.error e, s) := by
  unfold guardWith
  split_ifs <;> rfl

lemma run_reversed {r : Reversed} (hr : s.reversed source = .ok r) :
    (ErrState.read fun s => s.reversed source : M Reversed) s = (.ok r, s) := Prod.ext hr rfl

lemma retained_value (v : Value) (hv : v.isHeap = false) : retained v s = (.ok v, s) := by
  cases v with
  | heap h => cases hv
  | _ => rfl

/-- A source that counts `n` values of a kind from a front on. -/
lemma reads_count (hscalar : ∀ c, (K.value c).isHeap = false)
    (hroom : K.place a + n ≤ K.place K.top + 1)
    (hempty : s.revEmpty source = .ok (decide (n = 0))) (hlast : s.revLast source = .ok (n - 1))
    (hpast : ∀ k : U64, ¬ k.val < n → revAt source (.u64 k) s = (.error (err .invalidCode), s))
    (hat : ∀ k : U64, k.val < n → ∃ c, K.place c = K.place a + k.val ∧
      revAt source (.u64 k) s = (.ok (K.value c), s)) :
    Reads s source ((K.items n a).map K.value) := by
  have hlen : ((K.items n a).map K.value).length = n := by
    rw [List.length_map, Counting.Line.length_items hroom]
  refine ⟨?_, ?_, fun k => ?_⟩
  · rw [hempty, ← hlen]
    cases (K.items n a).map K.value <;> rfl
  · rw [hlast, hlen]
  · by_cases hk : k.val < n
    · obtain ⟨c, hplace, hrun⟩ := hat k hk
      rw [hrun, read_item hroom hk hplace]
      exact (retained_value _ (hscalar c)).symm
    · rw [hpast k hk, read_past hroom hk]

/-- The items that a front and the offset of a last one stand for. -/
def countOf (last : Option U64) : Nat := last.elim 0 fun last => last.val + 1

/-- The offsets up to a last one. -/
lemma lt_countOf {last : Option U64} {k : U64} :
    (last.any fun last => decide (k.val ≤ last.val)) = true ↔ k.val < countOf last := by
  cases last with
  | none => simp [countOf]
  | some last => simp [countOf]

lemma countOf_zero (last : Option U64) : last.isNone = decide (countOf last = 0) := by
  cases last <;> simp [countOf]

lemma countOf_pred (last : Option U64) : (last.map U64.val).getD 0 = countOf last - 1 := by
  cases last <;> rfl

lemma reads_signed {first : I64} {last : Option U64}
    (hr : s.reversed source = .ok (.signed first last))
    (hroom : first.val + countOf last ≤ 2 ^ 63) :
    Reads s source ((RangeKind.signed.items (countOf last) first).map Value.i64) := by
  have hat : ∀ k : U64, revAt source (.u64 k) s = if k.val < countOf last then
      (.ok (.i64 (first.wrappingAdd k)), s) else (.error (err .invalidCode), s) := by
    intro k
    unfold revAt
    dsimp only
    rw [ErrState.run_bind (run_reversed hr)]
    dsimp only
    rw [guarded]
    simp only [lt_countOf]
    rfl
  apply reads_count (K := RangeKind.signed) (fun _ => rfl)
  · exact hroom
  · unfold revEmpty
    rw [hr, ← countOf_zero]
    rfl
  · unfold revLast
    rw [hr, ← countOf_pred]
    rfl
  · intro k hk
    rw [hat, if_neg hk]
  · intro k hk
    refine ⟨first.wrappingAdd k, I64.wrappingAdd_val (by omega), ?_⟩
    rw [hat, if_pos hk]
    rfl

lemma reads_unsigned {first : U64} {last : Option U64}
    (hr : s.reversed source = .ok (.unsigned first last))
    (hroom : first.val + countOf last ≤ 2 ^ 64) :
    Reads s source ((RangeKind.unsigned.items (countOf last) first).map Value.u64) := by
  have hat : ∀ k : U64, revAt source (.u64 k) s = if k.val < countOf last then
      (.ok (.u64 (.wrap (first.val + k.val))), s) else (.error (err .invalidCode), s) := by
    intro k
    unfold revAt
    dsimp only
    rw [ErrState.run_bind (run_reversed hr)]
    dsimp only
    rw [guarded]
    simp only [lt_countOf]
    rfl
  apply reads_count (K := RangeKind.unsigned) (fun _ => rfl)
  · show (first.val : Int) + _ ≤ ((2 ^ 64 - 1 : Nat) : Int) + 1
    omega
  · unfold revEmpty
    rw [hr, ← countOf_zero]
    rfl
  · unfold revLast
    rw [hr, ← countOf_pred]
    rfl
  · intro k hk
    rw [hat, if_neg hk]
  · intro k hk
    refine ⟨.wrap (first.val + k.val), U64.wrap_val (by omega) (by omega), ?_⟩
    rw [hat, if_pos hk]
    rfl

lemma topOrdinal : RangeKind.char.place RangeKind.char.top = 1112063 := by decide

lemma exists_char {n : Nat} (h : n.isValidChar) : ∃ c : Char, c.toNat = n :=
  ⟨Char.ofNatAux n h, rfl⟩

/-- The character so many places further on has the code that an offset comes to. -/
lemma exists_char_offset (first : Char) {k : Nat} (h : (first.ordinal : Nat) + k < 1112064) :
    ∃ c : Char, (c.ordinal : Nat) = first.ordinal + k ∧
      c.toNat = if first.toNat < 0xd800 ∧ 0xd800 ≤ first.toNat + k then first.toNat + k + 0x800
        else first.toNat + k := by
  have hfirst := toNat_valid first
  have hordinal := ordinal_eq first
  have hvalid : (if first.toNat < 0xd800 ∧ 0xd800 ≤ first.toNat + k then first.toNat + k + 0x800
      else first.toNat + k).isValidChar := by
    unfold Nat.isValidChar
    split_ifs at hordinal ⊢ <;> omega
  obtain ⟨c, hc⟩ := exists_char hvalid
  have hc' := ordinal_eq c
  refine ⟨c, ?_, hc⟩
  rw [hc] at hc'
  split_ifs at hordinal hc' <;> omega

lemma charFromU32_toNat (c : Char) : charFromU32 c.toNat = some c := by
  unfold charFromU32
  rw [dif_pos (show c.toNat.isValidChar from toNat_valid c)]
  rfl

lemma reads_char {first : Char} {count : U64}
    (hr : s.reversed source = .ok (.char first count))
    (hroom : (first.ordinal : Nat) + count.val ≤ 1112064) :
    Reads s source ((RangeKind.char.items count.val first).map Value.char) := by
  have hat : ∀ k : U64, revAt source (.u64 k) s = if k.val < count.val then
      ((do
        guardWith (k.val < 2 ^ 32) (err .invalidCode)
        let code := wrapU32 (first.toNat + k.val)
        let code := if first.toNat < 0xd800 ∧ 0xd800 ≤ code then wrapU32 (code + 0x800) else code
        let c ← ofExcept (okOr (charFromU32 code) (err .invalidCode))
        pure (.char c)) : M Value) s else (.error (err .invalidCode), s) := by
    intro k
    unfold revAt
    dsimp only
    rw [ErrState.run_bind (run_reversed hr)]
    dsimp only
    rw [guarded]
  apply reads_count (K := RangeKind.char) (fun _ => rfl)
  · rw [topOrdinal]
    show ((first.ordinal : Nat) : Int) + _ ≤ _
    omega
  · unfold revEmpty
    rw [hr]
    rfl
  · unfold revLast
    rw [hr]
    show Except.ok ((checkedSub count.val 1).getD 0) = _
    by_cases hcount : 1 ≤ count.val
    · rw [checkedSub_of_le hcount]
      rfl
    · obtain hzero : count.val = 0 := by omega
      rw [hzero]
      rfl
  · intro k hk
    rw [hat, if_neg hk]
  · intro k hk
    obtain ⟨c, hordinal, hcode⟩ := exists_char_offset first (k := k.val) (by omega)
    refine ⟨c, ?_, ?_⟩
    · show ((c.ordinal : Nat) : Int) = ((first.ordinal : Nat) : Int) + _
      omega
    · have hbound := toNat_valid c
      have hfirst := toNat_valid first
      have hsum : wrapU32 (first.toNat + k.val) = first.toNat + k.val := by
        have := wrapU32_eq (n := first.toNat + k.val) (by omega) (by split_ifs at hcode <;> omega)
        omega
      rw [hat, if_pos hk, guarded, if_pos (by split_ifs at hcode <;> omega)]
      rw [hsum]
      have hcode' : (if first.toNat < 0xd800 ∧ 0xd800 ≤ first.toNat + k.val then
          wrapU32 ((first.toNat + k.val : Nat) + 0x800) else first.toNat + k.val) = c.toNat := by
        rw [hcode]
        split_ifs with hgap
        · have := wrapU32_eq (n := (first.toNat + k.val : Nat) + 0x800) (by omega)
            (by rw [if_pos hgap] at hcode; omega)
          omega
        · rfl
      rw [hcode', charFromU32_toNat]
      rfl

lemma reads_option {payload : Option Value} (hr : s.reversed source = .ok (.option payload)) :
    Reads s source payload.toList := by
  refine ⟨?_, ?_, fun k => ?_⟩
  · unfold revEmpty
    rw [hr]
    cases payload <;> rfl
  · unfold revLast
    rw [hr]
    cases payload <;> rfl
  · unfold revAt
    dsimp only
    rw [ErrState.run_bind (run_reversed hr)]
    dsimp only
    rcases Nat.eq_zero_or_pos k.val with hk | hk
    · cases payload with
      | none => rfl
      | some v =>
          rw [hk]
          rfl
    · have hfilter : payload.filter (fun _ => decide (k.val = 0)) = none := by
        rw [decide_eq_false (by omega)]
        cases payload <;> rfl
      have hpast : payload.toList[k.val]? = none := by
        rw [List.getElem?_eq_none]
        cases payload with
        | none => exact Nat.zero_le _
        | some v => exact hk
      rw [hfilter, hpast]
      rfl

lemma reads_list {root : Handle} {tag : Ty} {values : Buf Value} {index : Nat}
    (hp : s.payload root = .ok (.list tag values))
    (hr : s.reversed source = .ok (.list root index (values.items.length - index))) :
    Reads s source (values.items.drop index) := by
  have hlen : (values.items.drop index).length = values.items.length - index := List.length_drop
  refine ⟨?_, ?_, fun k => ?_⟩
  · unfold revEmpty
    rw [hr, ← hlen]
    cases values.items.drop index <;> rfl
  · unfold revLast
    rw [hr, ← hlen]
    cases values.items.drop index <;> rfl
  · unfold revAt
    dsimp only
    rw [ErrState.run_bind (run_reversed hr)]
    dsimp only
    rw [guarded, List.getElem?_drop]
    by_cases hk : k.val < values.items.length - index
    · rw [if_pos hk]
      unfold getElement
      dsimp only
      rw [ErrState.run_bind (run_payload hp)]
      dsimp only
      rw [List.getElem?_eq_getElem (by omega)]
      rfl
    · rw [if_neg hk, List.getElem?_eq_none (by omega)]

end Store

end Rnx
