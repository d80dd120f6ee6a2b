import Rnx.Columns.Primitives
import Mathlib.Tactic.Ring

/-!
# Vector loops compute what scalar loops compute

Every primitive returns the lanes and the fault of its scalar loop, whichever engine runs it.  A
vector lane is compared with the scalar lane once (`vectors_eq_sweep`); what is left for a
primitive is the sign bit of its overflow word.
-/

namespace Rnx.Columns

/-! ## Loops -/

@[simp] lemma length_sweep (n : Nat) (lane : Nat → Word × Bool) : (sweep n lane).1.length = n := by
  simp [sweep]

lemma getD_sweep {n i : Nat} (lane : Nat → Word × Bool) (h : i < n) :
    (sweep n lane).1.getD i 0 = (lane i).1 := by
  simp [sweep, h]

lemma sweep_fault {n : Nat} {lane : Nat → Word × Bool} :
    (sweep n lane).2 = true ↔ ∃ i, i < n ∧ (lane i).2 = true := by
  simp [sweep]

/-- The sign bit of an accumulator is the disjunction of the sign bits. -/
lemma msb_foldl_or (f : Nat → Word) (l : List Nat) (acc : Word) :
    (l.foldl (fun acc i => acc ||| f i) acc).msb = (acc.msb || l.any fun i => (f i).msb) := by
  induction l generalizing acc with
  | nil => simp
  | cons i l ih => rw [List.foldl_cons, ih, BitVec.msb_or, List.any_cons, Bool.or_assoc]

/-- A vector loop whose lanes and overflow signs are the scalar ones is the scalar loop. -/
lemma vectors_eq_sweep {n : Nat} {vector : Nat → Word × Word} {tail : Nat → Word × Bool}
    (h : ∀ i, i < n → (vector i).1 = (tail i).1 ∧ (vector i).2.msb = (tail i).2) :
    vectors n vector tail = sweep n tail := by
  have hfull : n / 4 * 4 ≤ n := by omega
  refine Prod.ext ?_ ?_
  · refine List.map_congr_left fun i hi => ?_
    have hi : i < n := List.mem_range.1 hi
    rw [(h i hi).1]
    exact ite_self _
  · change ((List.foldl (fun acc i => acc ||| (vector i).2) 0 (List.range (n / 4 * 4))).msb ||
      (List.range n).any fun i => decide (n / 4 * 4 ≤ i) && (tail i).2) = _
    rw [msb_foldl_or (fun i => (vector i).2), Bool.eq_iff_iff]
    simp only [sweep, Bool.or_eq_true, List.any_eq_true, List.mem_range, Bool.and_eq_true,
      decide_eq_true_eq]
    constructor
    · rintro ((h0 | ⟨i, hi, hv⟩) | ⟨i, hi, -, ht⟩)
      · simp at h0
      · exact ⟨i, by omega, by rw [← (h i (by omega)).2]; exact hv⟩
      · exact ⟨i, hi, ht⟩
    · rintro ⟨i, hi, ht⟩
      rcases Nat.lt_or_ge i (n / 4 * 4) with hl | hg
      · exact .inl (.inr ⟨i, hl, by rw [(h i hi).2]; exact ht⟩)
      · exact .inr ⟨i, hi, hg, ht⟩

/-! ## Sign bits of overflow words -/

lemma msb_addOverflow (a b : Word) : (addOverflow a b (a + b)).msb = a.saddOverflow b := by
  rw [addOverflow, BitVec.msb_and, BitVec.msb_xor, BitVec.msb_xor, BitVec.saddOverflow_eq]
  cases a.msb <;> cases b.msb <;> cases (a + b).msb <;> rfl

lemma msb_subOverflow (a b : Word) : (subOverflow a b (a - b)).msb = a.ssubOverflow b := by
  rw [subOverflow, BitVec.msb_and, BitVec.msb_xor, BitVec.msb_xor, BitVec.ssubOverflow_eq]
  cases a.msb <;> cases b.msb <;> cases (a - b).msb <;> rfl

lemma msb_cmpgt (a b : Word) : (cmpgt a b).msb = decide (b.toInt < a.toInt) := by
  unfold cmpgt
  rw [BitVec.slt]
  by_cases h : b.toInt < a.toInt
  · rw [decide_eq_true h]
    rfl
  · rw [decide_eq_false h]
    rfl

lemma toInt_lt (a : Word) : a.toInt < 2 ^ 63 := by
  have := BitVec.two_mul_toInt_lt (x := a)
  omega

lemma le_toInt (a : Word) : -2 ^ 63 ≤ a.toInt := by
  have := BitVec.le_two_mul_toInt (x := a)
  omega

lemma toInt_ofInt {n : Int} (h : -2 ^ 63 ≤ n) (h' : n < 2 ^ 63) : (BitVec.ofInt 64 n).toInt = n := by
  rw [BitVec.toInt_ofInt, Int.bmod_def]
  omega

lemma saddOverflow_iff (a b : Word) :
    a.saddOverflow b = decide (a.toInt + b.toInt < -2 ^ 63 ∨ 2 ^ 63 ≤ a.toInt + b.toInt) := by
  rw [BitVec.saddOverflow, Bool.eq_iff_iff]
  simp only [Nat.reduceSub, ge_iff_le, Bool.or_eq_true, decide_eq_true_eq]
  omega

lemma ssubOverflow_iff (a b : Word) :
    a.ssubOverflow b = decide (a.toInt - b.toInt < -2 ^ 63 ∨ 2 ^ 63 ≤ a.toInt - b.toInt) := by
  rw [BitVec.ssubOverflow, Bool.eq_iff_iff]
  simp only [Nat.reduceSub, ge_iff_le, Bool.or_eq_true, decide_eq_true_eq]
  omega

lemma smulOverflow_iff (a b : Word) :
    a.smulOverflow b = decide (a.toInt * b.toInt < -2 ^ 63 ∨ 2 ^ 63 ≤ a.toInt * b.toInt) := by
  rw [BitVec.smulOverflow, Bool.eq_iff_iff]
  simp only [Nat.reduceSub, ge_iff_le, Bool.or_eq_true, decide_eq_true_eq]
  omega

/-! ## Masks -/

/-- The bit of a mask, as the word the source shifts it down to. -/
lemma maskBit_eq (m : Word) (i : Nat) :
    m >>> i &&& 1 = (BitVec.ofBool (m.getLsbD i)).setWidth 64 := by
  have h := BitVec.and_one_eq_setWidth_ofBool_getLsbD (x := m >>> i)
  rwa [BitVec.getLsbD_ushiftRight, Nat.add_zero] at h

lemma valid_eq (m : Word) (i : Nat) : valid m i = m.getLsbD i := by
  rw [valid, maskBit_eq]
  cases m.getLsbD i <;> rfl

lemma laneMask_eq (m : Word) (i : Nat) :
    laneMask m i = if m.getLsbD i then BitVec.allOnes 64 else 0 := by
  rw [laneMask, maskBit_eq]
  cases m.getLsbD i <;> rfl

lemma and_laneMask (w m : Word) (i : Nat) :
    w &&& laneMask m i = if valid m i then w else 0 := by
  rw [laneMask_eq, valid_eq]
  cases m.getLsbD i
  · exact BitVec.and_zero
  · exact BitVec.and_allOnes

/-- A shifted mask compared with one of the bits of its vector selects a lane. -/
lemma shifted_lane (m : Word) {base k : Nat} (hk : k < 64) :
    ((m >>> base &&& (1 : Word) <<< k) = (1 : Word) <<< k) ↔ valid m (base + k) = true := by
  have hbit : ∀ j, ((1 : Word) <<< k).getLsbD j = decide (j = k) := by
    intro j
    rw [show (1 : Word) = 1#64 from rfl, BitVec.getLsbD_shiftLeft, BitVec.getLsbD_one,
      Bool.eq_iff_iff]
    simp only [Bool.and_eq_true, decide_eq_true_eq, Bool.not_eq_true', decide_eq_false_iff_not]
    omega
  rw [valid_eq]
  constructor
  · intro h
    have hj := congrArg (·.getLsbD k) h
    simpa only [BitVec.getLsbD_and, BitVec.getLsbD_ushiftRight, hbit, decide_true,
      Bool.and_true] using hj
  · intro h
    refine BitVec.eq_of_getLsbD_eq fun j hj => ?_
    rw [BitVec.getLsbD_and, BitVec.getLsbD_ushiftRight, hbit]
    by_cases hjk : j = k
    · subst hjk
      rw [h, Bool.true_and]
    · simp [hjk]

/-! ## The primitives -/

namespace Engine

lemma add_eq (e : Engine) (x : List Word) (c : Word) :
    e.add x c = sweep x.length fun i => overflowingAdd (x.getD i 0) c := by
  unfold add addConstantVectors
  split
  · refine vectors_eq_sweep fun i _ => ⟨rfl, ?_⟩
    dsimp only
    generalize x.getD i 0 = a
    have ha := toInt_lt a
    have ha' := le_toInt a
    have hc := toInt_lt c
    have hc' := le_toInt c
    have hmax : (BitVec.intMax 64).toInt = 2 ^ 63 - 1 := by decide
    have hmin : (BitVec.intMin 64).toInt = -2 ^ 63 := by decide
    rw [overflowingAdd, saddOverflow_iff]
    split
    · rename_i h0
      have hd : (BitVec.intMax 64 - c).toInt = 2 ^ 63 - 1 - c.toInt := by
        rw [BitVec.toInt_sub, hmax, Int.bmod_def]
        omega
      rw [msb_cmpgt, hd]
      exact decide_eq_decide.2 (by omega)
    · rename_i h0
      have hd : (BitVec.intMin 64 - c).toInt = -2 ^ 63 - c.toInt := by
        rw [BitVec.toInt_sub, hmin, Int.bmod_def]
        omega
      rw [msb_cmpgt, hd]
      exact decide_eq_decide.2 (by omega)
  · rfl

lemma addPair_eq (e : Engine) (x y : List Word) :
    e.addPair x y = sweep x.length fun i => overflowingAdd (x.getD i 0) (y.getD i 0) := by
  unfold addPair
  dsimp only
  split
  · exact vectors_eq_sweep fun i _ => ⟨rfl, msb_addOverflow _ _⟩
  · rfl

lemma subPair_eq (e : Engine) (x y : List Word) :
    e.subPair x y = sweep x.length fun i => overflowingSub (x.getD i 0) (y.getD i 0) := by
  unfold subPair
  dsimp only
  split
  · exact vectors_eq_sweep fun i _ => ⟨rfl, msb_subOverflow _ _⟩
  · rfl

lemma neutralVector_eq (mask : Option Word) (x : List Word) (c : Word) (i : Nat) :
    neutralVector mask x c i = neutral mask x c i := by
  cases mask with
  | none => rfl
  | some m =>
    have h := @shifted_lane m (i / 4 * 4) (i % 4) (by omega)
    rw [show i / 4 * 4 + i % 4 = i by omega] at h
    unfold neutralVector neutral
    dsimp only
    exact if_congr h rfl rfl

lemma addWordsConstant_eq (e : Engine) (x : List Word) (c : Word) (mask : Option Word) :
    e.addWordsConstant x c mask
      = sweep x.length fun i => overflowingAdd (neutral mask x 0 i) c := by
  unfold addWordsConstant
  dsimp only
  split
  · refine vectors_eq_sweep fun i _ => ?_
    rw [neutralVector_eq]
    exact ⟨rfl, msb_addOverflow _ _⟩
  · rfl

lemma subConstant_eq (e : Engine) (reversed : Bool) (x : List Word) (c : Word)
    (mask : Option Word) :
    e.subConstant reversed x c mask = sweep x.length fun i =>
      if reversed then overflowingSub c (neutral mask x c i)
      else overflowingSub (neutral mask x c i) c := by
  unfold subConstant
  dsimp only
  split
  · refine vectors_eq_sweep fun i _ => ?_
    rw [neutralVector_eq]
    cases reversed
    · exact ⟨rfl, msb_subOverflow _ _⟩
    · exact ⟨rfl, msb_subOverflow _ _⟩
  · rfl

lemma toNat_setWidth_32 (a : Word) :
    ((a.setWidth 32).setWidth 64).toNat = a.toNat % 2 ^ 32 := by
  rw [BitVec.toNat_setWidth, BitVec.toNat_setWidth]
  have := Nat.mod_lt a.toNat (show 0 < 2 ^ 32 by decide)
  omega

/-- The halves of a product recombine. -/
lemma halves_product (a : Word) {k : Nat} (hk : k < 2 ^ 32) :
    mulEpu32 a (BitVec.ofNat 64 k) + mulEpu32 (a >>> 32) (BitVec.ofNat 64 k) <<< 32
      = a * BitVec.ofNat 64 k := by
  refine BitVec.eq_of_toNat_eq ?_
  have hk' : ((BitVec.ofNat 64 k).setWidth 32).setWidth 64 = BitVec.ofNat 64 k := by
    refine BitVec.eq_of_toNat_eq ?_
    rw [toNat_setWidth_32, BitVec.toNat_ofNat]
    omega
  have ha := a.isLt
  have hh : (a >>> 32).toNat = a.toNat / 2 ^ 32 := by
    rw [BitVec.toNat_ushiftRight, Nat.shiftRight_eq_div_pow]
  have hlow : a.toNat / 2 ^ 32 % 2 ^ 32 = a.toNat / 2 ^ 32 := Nat.mod_eq_of_lt (by omega)
  unfold mulEpu32
  rw [hk', BitVec.toNat_add, BitVec.toNat_shiftLeft, BitVec.toNat_mul, BitVec.toNat_mul,
    BitVec.toNat_mul, toNat_setWidth_32, toNat_setWidth_32, hh, hlow, BitVec.toNat_ofNat,
    Nat.shiftLeft_eq, Nat.mod_eq_of_lt (show k < 2 ^ 64 by omega)]
  have hsplit : a.toNat = a.toNat % 2 ^ 32 + 2 ^ 32 * (a.toNat / 2 ^ 32) :=
    (Nat.mod_add_div _ _).symm
  have hprod : a.toNat * k
      = a.toNat % 2 ^ 32 * k + a.toNat / 2 ^ 32 * k * 2 ^ 32 := by
    conv_lhs => rw [hsplit]
    ring
  rw [hprod, Nat.add_mod, Nat.mod_mod, Nat.mod_mod, ← Nat.add_mod]
  conv_lhs => rw [Nat.add_mod, Nat.mod_mul_mod, ← Nat.add_mod]

lemma ofNat_natAbs_of_pos {c : Word} (h : 0 ≤ c.toInt) : BitVec.ofNat 64 c.toInt.natAbs = c := by
  have hn : c.toInt = (c.toInt.natAbs : Int) := (Int.natAbs_of_nonneg h).symm
  rw [← BitVec.ofInt_natCast, ← hn, BitVec.ofInt_toInt]

lemma neg_ofNat_natAbs_of_neg {c : Word} (h : c.toInt < 0) :
    -BitVec.ofNat 64 c.toInt.natAbs = c := by
  have hn : c.toInt = -(c.toInt.natAbs : Int) := by omega
  rw [← BitVec.ofInt_natCast, ← BitVec.ofInt_neg, ← hn, BitVec.ofInt_toInt]

lemma shortProduct_eq (a c : Word) (h : multiplies c = true) : shortProduct a c = a * c := by
  have hk : c.toInt.natAbs < 2 ^ 32 := by
    simp only [multiplies, Bool.and_eq_true, decide_eq_true_eq] at h
    exact h.2
  unfold shortProduct
  dsimp only
  rw [halves_product a hk]
  split
  · rename_i hneg
    conv_rhs => rw [← neg_ofNat_natAbs_of_neg hneg]
    rw [BitVec.mul_neg]
    exact BitVec.zero_sub _
  · rename_i hpos
    rw [ofNat_natAbs_of_pos (by omega)]

/-- Between its two limits a factor has a product that fits, beyond them it has none. -/
lemma mul_limits {a c : Int} (hc : c ≠ 0) (ha : -2 ^ 63 ≤ a) (ha' : a < 2 ^ 63) :
    (a * c < -2 ^ 63 ∨ 2 ^ 63 ≤ a * c) ↔
      (a < max (if 0 < c then (-2 ^ 63 : Int).tdiv c else (2 ^ 63 - 1 : Int).tdiv c) (-2 ^ 63) ∨
        min (if 0 < c then (2 ^ 63 - 1 : Int).tdiv c else (-2 ^ 63 : Int).tdiv c) (2 ^ 63 - 1)
          < a) := by
  -- Both limits are quotients by the magnitude of the constant.
  have hq : ∀ {d n x : Int}, 0 < d → (n / d < x ↔ n < x * d) := fun hd =>
    Int.ediv_lt_iff_lt_mul hd
  rcases lt_or_gt_of_ne hc with hneg | hpos
  · obtain ⟨d, rfl⟩ : ∃ d, c = -d := ⟨-c, by omega⟩
    have hd : 0 < d := by omega
    have h1 := hq (n := 2 ^ 63 - 1) (x := -a) hd
    have h2 := hq (n := 2 ^ 63) (x := a) hd
    have hn : (0 : Int) ≤ (2 ^ 63 - 1) / d := Int.ediv_nonneg (by decide) (by omega)
    have hn' : (0 : Int) ≤ 2 ^ 63 / d := Int.ediv_nonneg (by decide) (by omega)
    have hle : (2 ^ 63 - 1) / d ≤ 2 ^ 63 - 1 := Int.ediv_le_self _ (by decide)
    rw [if_neg (by omega), if_neg (by omega), Int.tdiv_neg, Int.tdiv_neg, Int.neg_tdiv,
      Int.tdiv_eq_ediv_of_nonneg (by decide), Int.tdiv_eq_ediv_of_nonneg (by decide), Int.mul_neg]
    rw [Int.neg_mul] at h1
    omega
  · have h1 := hq (n := 2 ^ 63) (x := -a) hpos
    have h2 := hq (n := 2 ^ 63 - 1) (x := a) hpos
    have hn : (0 : Int) ≤ (2 ^ 63 - 1) / c := Int.ediv_nonneg (by decide) (by omega)
    have hn' : (0 : Int) ≤ 2 ^ 63 / c := Int.ediv_nonneg (by decide) (by omega)
    have hle : (2 ^ 63 - 1) / c ≤ 2 ^ 63 - 1 := Int.ediv_le_self _ (by decide)
    have hle' : 2 ^ 63 / c ≤ 2 ^ 63 := Int.ediv_le_self _ (by decide)
    rw [if_pos hpos, if_pos hpos, Int.neg_tdiv, Int.tdiv_eq_ediv_of_nonneg (by decide),
      Int.tdiv_eq_ediv_of_nonneg (by decide)]
    rw [Int.neg_mul] at h1
    omega

lemma mulLow_toInt (c : Word) : (mulLow c).toInt =
    max (if 0 < c.toInt then (-2 ^ 63 : Int).tdiv c.toInt else (2 ^ 63 - 1 : Int).tdiv c.toInt)
      (-2 ^ 63) := by
  refine toInt_ofInt (le_max_right _ _) ?_
  split
  · rename_i hpos
    have : (-2 ^ 63 : Int).tdiv c.toInt ≤ 0 := by
      rw [Int.neg_tdiv, Int.tdiv_eq_ediv_of_nonneg (by decide)]
      have : (0 : Int) ≤ 2 ^ 63 / c.toInt := Int.ediv_nonneg (by decide) (by omega)
      omega
    omega
  · have := Int.natAbs_tdiv_le_natAbs (2 ^ 63 - 1 : Int) c.toInt
    omega

lemma mulHigh_toInt (c : Word) : (mulHigh c).toInt =
    min (if 0 < c.toInt then (2 ^ 63 - 1 : Int).tdiv c.toInt else (-2 ^ 63 : Int).tdiv c.toInt)
      (2 ^ 63 - 1) := by
  refine toInt_ofInt ?_ (lt_of_le_of_lt (min_le_right _ _) (by decide))
  have h1 := Int.natAbs_tdiv_le_natAbs (2 ^ 63 - 1 : Int) c.toInt
  have h2 := Int.natAbs_tdiv_le_natAbs (-2 ^ 63 : Int) c.toInt
  split <;> omega

/-- A lane outside the limits of a constant is one whose product with it does not fit. -/
lemma mul_bounds (a : Word) {c : Word} (hc : c.toInt ≠ 0) :
    (a.toInt * c.toInt < -2 ^ 63 ∨ 2 ^ 63 ≤ a.toInt * c.toInt) ↔
      (a.toInt < (mulLow c).toInt ∨ (mulHigh c).toInt < a.toInt) := by
  rw [mulLow_toInt, mulHigh_toInt]
  exact mul_limits hc (le_toInt a) (toInt_lt a)

lemma mulConstant_eq (e : Engine) (x : List Word) (c : Word) :
    e.mulConstant x c = sweep x.length fun i => overflowingMul (x.getD i 0) c := by
  unfold mulConstant
  dsimp only
  split
  · rename_i hm
    obtain ⟨-, hm⟩ := (Bool.and_eq_true _ _).mp hm
    have hc : c.toInt ≠ 0 := by
      intro h0
      have : c = 0 := BitVec.eq_of_toInt_eq h0
      simp [multiplies, this] at hm
    refine vectors_eq_sweep fun i _ => ⟨shortProduct_eq _ _ hm, ?_⟩
    rw [BitVec.msb_or, msb_cmpgt, msb_cmpgt, overflowingMul, smulOverflow_iff, ← Bool.decide_or]
    exact (decide_eq_decide.2 (mul_bounds _ hc)).symm
  · rfl

lemma msb_vectorFused (a b : Word) :
    (vectorFused a b).1 = (overflowingFused a b).1 ∧
      (vectorFused a b).2.msb = (overflowingFused a b).2 := by
  have hdouble : a * 2 = a + a := by
    rw [show (2 : Word) = 2#64 from rfl, BitVec.mul_two]
  have hmul : a.smulOverflow 2 = a.saddOverflow a := by
    rw [smulOverflow_iff, saddOverflow_iff]
    have h2 : (2 : Word).toInt = 2 := by decide
    rw [h2]
    exact decide_eq_decide.2 (by omega)
  unfold vectorFused overflowingFused overflowingMul overflowingAdd
  dsimp only
  rw [hdouble, hmul]
  refine ⟨rfl, ?_⟩
  rw [BitVec.msb_or, msb_addOverflow, BitVec.msb_xor, BitVec.saddOverflow_eq a a]
  cases a.msb <;> cases (a + a).msb <;> simp

lemma fused_eq (e : Engine) (x y : List Word) :
    e.fused x y = sweep x.length fun i => overflowingFused (x.getD i 0) (y.getD i 0) := by
  unfold fused
  dsimp only
  split
  · exact vectors_eq_sweep fun i _ => msb_vectorFused _ _
  · rfl

lemma maskedVector_eq (mask : Word) (i : Nat) {v : Word × Word} {t : Word × Bool}
    (h1 : v.1 = t.1) (h2 : v.2.msb = t.2) :
    (maskedVector mask i v).1 = (maskedLane mask i t).1 ∧
      (maskedVector mask i v).2.msb = (maskedLane mask i t).2 := by
  unfold maskedVector maskedLane
  dsimp only
  rw [and_laneMask, and_laneMask, ← h1, ← h2]
  cases valid mask i <;> simp

lemma maskedAdd_eq (e : Engine) (x : List Word) (c mask : Word) :
    e.maskedAdd x c mask
      = sweep x.length fun i => maskedLane mask i (overflowingAdd (x.getD i 0) c) := by
  unfold maskedAdd
  dsimp only
  split
  · exact vectors_eq_sweep fun i _ => maskedVector_eq mask i rfl (msb_addOverflow _ _)
  · rfl

lemma maskedFused_eq (e : Engine) (x y : List Word) (mask : Word) :
    e.maskedFused x y mask
      = sweep x.length fun i => maskedLane mask i (overflowingFused (x.getD i 0) (y.getD i 0)) := by
  unfold maskedFused
  dsimp only
  split
  · exact vectors_eq_sweep fun i _ =>
      maskedVector_eq mask i (msb_vectorFused _ _).1 (msb_vectorFused _ _).2
  · rfl

@[simp] lemma length_zeroI64 (out : List Word) (mask : Word) :
    (zeroI64 out mask).length = out.length := by
  simp [zeroI64]

lemma getD_zeroI64 {out : List Word} {mask : Word} {i : Nat} (h : i < out.length) :
    (zeroI64 out mask).getD i 0 = if valid mask i then out.getD i 0 else 0 := by
  rw [← and_laneMask]
  simp [zeroI64, h]

/-- A lane of the masked float loop: the result where its mask word selects it, else zero. -/
lemma getD_maskedFloats (e : Engine) (F : FloatOps) {x : List Word} (rhs : FloatRhs)
    {masks : List Word} {i : Nat} (h : i < x.length) :
    (e.maskedFloats F x rhs masks).getD i 0
      = if valid (masks.getD (i / 64) 0) (i % 64) then rhsLane F x rhs i else 0 := by
  have hv : floatMaskVector masks i = floatMask masks i := by
    have hs := @shifted_lane (masks.getD (i / 64) 0) (i / 16 * 16 % 64) (i % 16)
      (by omega)
    have hw : i / 16 * 16 / 64 = i / 64 := by omega
    rw [show i / 16 * 16 % 64 + i % 16 = i % 64 by omega, valid_eq] at hs
    unfold floatMaskVector floatMask
    dsimp only
    rw [hw, laneMask_eq]
    exact if_congr hs rfl rfl
  have hm : (if e.avx2 = true ∧ i < x.length / 16 * 16 then floatMaskVector masks i
      else floatMask masks i) = floatMask masks i := by
    rw [hv]
    exact ite_self _
  have hg : (e.maskedFloats F x rhs masks).getD i 0 = rhsLane F x rhs i &&& floatMask masks i := by
    rw [← hm]
    simp [maskedFloats, h]
  rw [hg, floatMask, and_laneMask]

@[simp] lemma length_maskedFloats (e : Engine) (F : FloatOps) (x : List Word) (rhs : FloatRhs)
    (masks : List Word) : (e.maskedFloats F x rhs masks).length = x.length := by
  simp [maskedFloats]

/-! ## Lanes and checked arithmetic -/

/-- **Vector lanes agree with checked arithmetic.**  The sign bits that the additions and
subtractions test are those of an overflow; a lane is outside the limits of a short constant exactly
when its product with it overflows, and the products of its halves add up to the wrapped one.  So the
loops over vectors are the scalar ones. -/
theorem lanes_exact :
    (∀ a b : Word, (addOverflow a b (a + b)).msb = true ↔
      (a.toInt + b.toInt < -2 ^ 63 ∨ 2 ^ 63 ≤ a.toInt + b.toInt)) ∧
    (∀ a b : Word, (subOverflow a b (a - b)).msb = true ↔
      (a.toInt - b.toInt < -2 ^ 63 ∨ 2 ^ 63 ≤ a.toInt - b.toInt)) ∧
    (∀ x c : Word, c ≠ 0 → c.toInt.natAbs < 2 ^ 32 →
      ((x.toInt < (mulLow c).toInt ∨ (mulHigh c).toInt < x.toInt) ↔
        (x.toInt * c.toInt < -2 ^ 63 ∨ 2 ^ 63 ≤ x.toInt * c.toInt)) ∧
      shortProduct x c = x * c) ∧
    ∀ (e : Engine) (x : List Word),
      (∀ y, e.addPair x y = sweep x.length fun i => overflowingAdd (x.getD i 0) (y.getD i 0)) ∧
      (∀ y, e.subPair x y = sweep x.length fun i => overflowingSub (x.getD i 0) (y.getD i 0)) ∧
      ∀ c, e.mulConstant x c = sweep x.length fun i => overflowingMul (x.getD i 0) c := by
  refine ⟨fun a b => ?_, fun a b => ?_, fun x c hc hshort => ⟨?_, ?_⟩, fun e x => ?_⟩
  · rw [msb_addOverflow, saddOverflow_iff, decide_eq_true_eq]
  · rw [msb_subOverflow, ssubOverflow_iff, decide_eq_true_eq]
  · have hne : c.toInt ≠ 0 := fun h0 => hc (BitVec.eq_of_toInt_eq h0)
    exact (mul_bounds x hne).symm
  · have hmultiplies : multiplies c = true := by
      unfold multiplies
      rw [Bool.and_eq_true, bne_iff_ne, decide_eq_true_eq]
      exact ⟨hc, hshort⟩
    exact shortProduct_eq x c hmultiplies
  · exact ⟨addPair_eq e x, subPair_eq e x, mulConstant_eq e x⟩

/-- The least number and the constant minus one. -/
theorem lanes_exact_min : (BitVec.intMin 64).toInt < (mulLow (-1)).toInt ∧
    shortProduct (BitVec.intMin 64) (-1) = BitVec.intMin 64 * -1 := by
  have h := lanes_exact.2.2.1 (BitVec.intMin 64) (-1) (by decide) (by decide)
  refine ⟨?_, h.2⟩
  obtain hlow | hhigh := h.1.2 (.inr (by decide))
  · exact hlow
  · exact absurd hhigh (by decide)

end Engine

end Rnx.Columns
