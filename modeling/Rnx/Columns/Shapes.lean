import Rnx.Columns.FirstFault

/-!
# The loops of the fast plans

What a plan of one of the shapes computes on a row, and that the loop written for the shape raises
its flag exactly when a selected row faults.
-/

namespace Rnx.Columns

open Packed

/-! ## The shapes with a loop of their own -/

/-- Distinct computed nodes are counted. -/
lemma length_le_computedCount {nodes : List Node} {is : List Nat} (hnd : is.Nodup)
    (h : ∀ i ∈ is, i < nodes.length ∧ (nodeAt nodes i).step.computes = true) :
    is.length ≤ computedCount nodes := by
  have hmap : nodes = (List.range nodes.length).map (nodeAt nodes) := by
    refine List.ext_getElem (by simp) fun i hi _ => ?_
    simp [nodeAt, hi]
  have hcount : computedCount nodes
      = ((List.range nodes.length).filter fun i => (nodeAt nodes i).step.computes).length := by
    conv_lhs => rw [computedCount, hmap, List.countP_map]
    exact List.countP_eq_length_filter
  rw [hcount]
  refine (hnd.subperm fun i hi => ?_).length_le
  obtain ⟨hlt, hc⟩ := h i hi
  exact List.mem_filter.2 ⟨List.mem_range.2 hlt, hc⟩

/-- What a plan of one of the shapes looks like. -/
def Shape (nodes : List Node) (result : Nat) : Fast → Prop
  | .i64Add i c => computedCount nodes = 1 ∧ (nodeAt nodes result).ty = .i64 ∧
      ∃ x y, (nodeAt nodes result).step = .binary .add x y ∧
        (nodeAt nodes x).step = .input i ∧ (nodeAt nodes y).step = .constant c
  | .f64Add i c => computedCount nodes = 1 ∧ (nodeAt nodes result).ty = .f64 ∧
      ∃ x y, (nodeAt nodes result).step = .binary .add x y ∧
        (nodeAt nodes x).step = .input i ∧ (nodeAt nodes y).step = .constant c
  | .boolNot i => computedCount nodes = 1 ∧
      ∃ x, (nodeAt nodes result).step = .not x ∧ (nodeAt nodes x).step = .input i
  | .fused i j => computedCount nodes = 2 ∧ (nodeAt nodes result).ty = .i64 ∧
      ∃ m y x c, (nodeAt nodes result).step = .binary .add m y ∧
        (nodeAt nodes m).step = .binary .mul x c ∧ (nodeAt nodes y).step = .input j ∧
        (nodeAt nodes x).step = .input i ∧ (nodeAt nodes c).step = .constant 2
  | .f64Pair pair i j => computedCount nodes = 1 ∧ (nodeAt nodes result).ty = .f64 ∧
      ∃ op x y, pairOp op = some pair ∧ (nodeAt nodes result).step = .binary op x y ∧
        (nodeAt nodes x).step = .input i ∧ (nodeAt nodes y).step = .input j

lemma shape_of_fast {nodes : List Node} {result : Nat} {shape : Fast}
    (h : fast nodes result = some shape) : Shape nodes result shape := by
  unfold fast at h
  split at h
  · rename_i found hpair
    unfold fastPair at hpair
    split at hpair
    · rename_i hcount
      split at hpair
      · rename_i op x y hstep
        split at hpair
        · rename_i i j hx hy
          obtain rfl := Option.some.inj hpair
          obtain ⟨pair, hpair, rfl⟩ := Option.map_eq_some_iff.1 h
          exact ⟨hcount.1, hcount.2, op, x, y, hpair, hstep, hx, hy⟩
        · cases hpair
      · cases hpair
    · cases hpair
  · split at h
    · rename_i x y hstep
      split at h
      · rename_i hcount
        unfold fastAdd at h
        split at h
        · rename_i i c hx hy
          split at h
          · rename_i hty
            obtain rfl := Option.some.inj h
            exact ⟨hcount, hty, x, y, hstep, hx, hy⟩
          · rename_i hty
            obtain rfl := Option.some.inj h
            exact ⟨hcount, hty, x, y, hstep, hx, hy⟩
          · cases h
        · cases h
      · split at h
        · rename_i hcount
          unfold fastFused at h
          split at h
          · rename_i x' c j hm hy
            split at h
            · rename_i i v hx hc
              split at h
              · rename_i hv
                subst hv
                obtain rfl := Option.some.inj h
                exact ⟨hcount.1, hcount.2, x, y, x', c, hstep, hm, hy, hx, hc⟩
              · cases h
            · cases h
          · cases h
        · cases h
    · rename_i x hstep
      split at h
      · rename_i hcount
        split at h
        · rename_i i hx
          obtain rfl := Option.some.inj h
          exact ⟨hcount, x, hstep, hx⟩
        · cases h
      · cases h
    · cases h

/-- The fault of a shape on row `j`. -/
def Fast.fault (b : Block) (j : Nat) : Fast → Bool
  | .i64Add i c => (overflowingAdd (b.input j i) c).2
  | .fused i k => (overflowingFused (b.input j i) (b.input j k)).2
  | _ => false

section

variable {F : FloatOps} {p : PreparedColumn} {b : Block} {mask : Option Word}

/-- Only computed nodes fault. -/
lemma computes_of_fault (h : Housed p) {input : Nat → Word} {k : Nat} (hk : k < p.nodes.length)
    (hf : (lane F p.nodes input k).2 = true) : (nodeAt p.nodes k).step.computes = true := by
  rw [lane_of_typed h.typed hk] at hf
  cases hs : (nodeAt p.nodes k).step with
  | input c =>
    rw [hs] at hf
    cases hf
  | constant v =>
    rw [hs] at hf
    cases hf
  | binary op x y => rfl
  | not x => rfl

/-- A plan that computes one node faults with it. -/
lemma faulty_of_one (h : Housed p) (hcount : computedCount p.nodes = 1)
    (hc : (nodeAt p.nodes p.result).step.computes = true) (input : Nat → Word) :
    Faulty F p.nodes input ↔ (lane F p.nodes input p.result).2 = true := by
  constructor
  · rintro ⟨k, hk, hf⟩
    by_cases hkr : k = p.result
    · rwa [hkr] at hf
    · exfalso
      have := @length_le_computedCount p.nodes [k, p.result]
        (by simpa using hkr) (by
          intro i hi
          rcases List.mem_pair.1 hi with rfl | rfl
          · exact ⟨hk, computes_of_fault h hk hf⟩
          · exact ⟨h.result_lt, hc⟩)
      simp [hcount] at this
  · exact fun hf => ⟨p.result, h.result_lt, hf⟩

/-- The types of the operands of a sum. -/
lemma operand_types (h : Housed p) {k x y : Nat} (hk : k < p.nodes.length) {op : Binary}
    (hs : (nodeAt p.nodes k).step = .binary op x y) (hop : pairOp op ≠ none) :
    x < k ∧ y < k ∧ (nodeAt p.nodes x).ty = (nodeAt p.nodes k).ty ∧
      (nodeAt p.nodes y).ty = (nodeAt p.nodes k).ty := by
  have ht : TypedStep p.inputs p.nodes k _ _ := h.typed k hk
  rw [hs] at ht
  obtain ⟨hx, hy, hty⟩ := ht
  have hsame := binaryType_same hty
  rw [← hsame] at hty ⊢
  have hty' : (nodeAt p.nodes x).ty = (nodeAt p.nodes k).ty := by
    cases htx : (nodeAt p.nodes x).ty <;> rw [htx] at hty <;>
      cases op <;> first | exact Except.ok.inj hty | cases hty | exact absurd rfl hop
  exact ⟨hx, hy, hty', hty'⟩

lemma lane_binary (h : Housed p) {k x y : Nat} (hk : k < p.nodes.length) {op : Binary}
    (hs : (nodeAt p.nodes k).step = .binary op x y) (input : Nat → Word) :
    lane F p.nodes input k = binary F op (nodeAt p.nodes x).ty (lane F p.nodes input x).1
      (lane F p.nodes input y).1 := by
  rw [lane_of_typed h.typed hk, hs]
  rfl

lemma lane_input (h : Housed p) {k i : Nat} (hk : k < p.nodes.length)
    (hs : (nodeAt p.nodes k).step = .input i) (input : Nat → Word) :
    lane F p.nodes input k = (input i, false) := by
  rw [lane_of_typed h.typed hk, hs]
  rfl

lemma lane_constant (h : Housed p) {k : Nat} {v : Word} (hk : k < p.nodes.length)
    (hs : (nodeAt p.nodes k).step = .constant v) (input : Nat → Word) :
    lane F p.nodes input k = (v, false) := by
  rw [lane_of_typed h.typed hk, hs]
  rfl

/-- A plan of a shape faults as the shape does. -/
theorem faulty_iff_fast (h : Housed p) {shape : Fast} (hshape : Shape p.nodes p.result shape)
    (j : Nat) : Faulty F p.nodes (b.input j) ↔ shape.fault b j = true := by
  have hr := h.result_lt
  cases shape with
  | i64Add i c =>
    obtain ⟨hcount, hty, x, y, hs, hx, hy⟩ := hshape
    obtain ⟨hxr, hyr, htx, -⟩ := operand_types h hr hs (by simp [pairOp])
    rw [faulty_of_one h hcount (by rw [hs]; rfl), lane_binary h hr hs,
      lane_input h (by omega) hx, lane_constant h (by omega) hy, htx, hty]
    rfl
  | f64Add i c =>
    obtain ⟨hcount, hty, x, y, hs, hx, hy⟩ := hshape
    obtain ⟨-, -, htx, -⟩ := operand_types h hr hs (by simp [pairOp])
    rw [faulty_of_one h hcount (by rw [hs]; rfl), lane_binary h hr hs, htx, hty]
    rfl
  | boolNot i =>
    obtain ⟨hcount, x, hs, hx⟩ := hshape
    rw [faulty_of_one h hcount (by rw [hs]; rfl), lane_of_typed h.typed hr, hs]
    rfl
  | f64Pair pair i k =>
    obtain ⟨hcount, hty, op, x, y, hpair, hs, hx, hy⟩ := hshape
    obtain ⟨-, -, htx, -⟩ := operand_types h hr hs (by simp [hpair])
    rw [faulty_of_one h hcount (by rw [hs]; rfl), lane_binary h hr hs, htx, hty]
    cases op <;> rfl
  | fused i k =>
    obtain ⟨hcount, hty, m, y, x, c, hs, hm, hy, hx, hc⟩ := hshape
    obtain ⟨hmr, hyr, htm, -⟩ := operand_types h hr hs (by simp [pairOp])
    have hml : m < p.nodes.length := by omega
    obtain ⟨hxm, hcm, htx, -⟩ := operand_types h hml hm (by simp [pairOp])
    have hlm := lane_binary (F := F) h hml hm (b.input j)
    rw [lane_input h (by omega) hx, lane_constant h (by omega) hc, htx, htm, hty] at hlm
    have hlr := lane_binary (F := F) h hr hs (b.input j)
    rw [hlm, lane_input h (by omega) hy, htm, hty] at hlr
    have hfault : (Fast.fused i k).fault b j = ((lane F p.nodes (b.input j) m).2 ||
        (lane F p.nodes (b.input j) p.result).2) := by
      rw [hlr, hlm]
      rfl
    rw [hfault, Bool.or_eq_true]
    constructor
    · rintro ⟨k', hk', hf⟩
      by_cases hkm : k' = m
      · exact .inl (hkm ▸ hf)
      · by_cases hkr : k' = p.result
        · exact .inr (hkr ▸ hf)
        · exfalso
          have := @length_le_computedCount p.nodes [k', m, p.result]
            (by simp; omega) (by
              intro i hi
              simp only [List.mem_cons, List.not_mem_nil, or_false] at hi
              rcases hi with rfl | rfl | rfl
              · exact ⟨hk', computes_of_fault h hk' hf⟩
              · exact ⟨hml, by rw [hm]; rfl⟩
              · exact ⟨hr, by rw [hs]; rfl⟩)
          simp [hcount] at this
    · rintro (hf | hf)
      · exact ⟨m, hml, hf⟩
      · exact ⟨p.result, hr, hf⟩

/-- A block faults where its shape does. -/
lemma blockFaulty_iff (h : Housed p) {shape : Fast} (hshape : Shape p.nodes p.result shape) :
    b.Faulty F p mask ↔ ∃ j, j < b.n ∧ selects mask j = true ∧ shape.fault b j = true := by
  unfold Block.Faulty
  simp only [faulty_iff_fast h hshape]

/-! ## The kernels -/

/-- The type of an input node is that of its column. -/
lemma input_type (h : Housed p) {k i : Nat} (hk : k < p.nodes.length)
    (hs : (nodeAt p.nodes k).step = .input i) : p.inputs[i]? = some (nodeAt p.nodes k).ty := by
  have ht : TypedStep p.inputs p.nodes k _ _ := h.typed k hk
  rwa [hs] at ht

lemma i64_spec (hb : b.Fits p.inputs) {i : Nat} (hi : p.inputs[i]? = some .i64) :
    ∃ x, b.i64 i = .ok x ∧ x.length = b.n ∧ ∀ j, j < b.n → x.getD j 0 = b.input j i := by
  obtain ⟨column, offset, hat, hty, hlen⟩ := hb.input i _ hi
  cases column with
  | i64 v =>
    refine ⟨_, ?_, length_slice hlen, fun j hj => ?_⟩
    · rw [Block.i64, hat]
      dsimp only
      rw [slice?_eq hlen]
      rfl
    · rw [getD_slice 0 hj, Block.input, hat]
      rfl
  | f64 v => cases hty
  | bool v => cases hty

lemma f64_spec (hb : b.Fits p.inputs) {i : Nat} (hi : p.inputs[i]? = some .f64) :
    ∃ x, b.f64 i = .ok x ∧ x.length = b.n := by
  obtain ⟨column, offset, hat, hty, hlen⟩ := hb.input i _ hi
  cases column with
  | f64 v =>
    refine ⟨_, ?_, length_slice hlen⟩
    rw [Block.f64, hat]
    dsimp only
    rw [slice?_eq hlen]
    rfl
  | i64 v => cases hty
  | bool v => cases hty

/-- The types a shape is written for. -/
def Fast.Types (p : PreparedColumn) : Fast → Prop
  | .i64Add i _ => p.output = .i64 ∧ p.inputs[i]? = some .i64
  | .f64Add i _ => p.output = .f64 ∧ p.inputs[i]? = some .f64
  | .boolNot i => p.inputs[i]? = some .bool
  | .fused i k => p.output = .i64 ∧ p.inputs[i]? = some .i64 ∧ p.inputs[k]? = some .i64
  | .f64Pair _ i k => p.output = .f64 ∧ p.inputs[i]? = some .f64 ∧ p.inputs[k]? = some .f64

lemma types_of_shape (h : Housed p) {shape : Fast} (hshape : Shape p.nodes p.result shape) :
    shape.Types p := by
  have hr := h.result_lt
  have hout := h.output
  cases shape with
  | i64Add i c =>
    obtain ⟨-, hty, x, y, hs, hx, -⟩ := hshape
    obtain ⟨hxr, -, htx, -⟩ := operand_types h hr hs (by simp [pairOp])
    exact ⟨hout.symm.trans hty, by rw [input_type h (by omega) hx, htx, hty]⟩
  | f64Add i c =>
    obtain ⟨-, hty, x, y, hs, hx, -⟩ := hshape
    obtain ⟨hxr, -, htx, -⟩ := operand_types h hr hs (by simp [pairOp])
    exact ⟨hout.symm.trans hty, by rw [input_type h (by omega) hx, htx, hty]⟩
  | boolNot i =>
    obtain ⟨-, x, hs, hx⟩ := hshape
    have ht : TypedStep p.inputs p.nodes p.result _ _ := h.typed _ hr
    rw [hs] at ht
    exact (input_type h (Nat.lt_trans ht.1 hr) hx).trans (congrArg some ht.2.1)
  | fused i k =>
    obtain ⟨-, hty, m, y, x, c, hs, hm, hy, hx, -⟩ := hshape
    obtain ⟨hmr, hyr, htm, hty'⟩ := operand_types h hr hs (by simp [pairOp])
    obtain ⟨hxm, -, htx, -⟩ := operand_types h (Nat.lt_trans hmr hr) hm (by simp [pairOp])
    exact ⟨hout.symm.trans hty, by rw [input_type h (by omega) hx, htx, htm, hty],
      by rw [input_type h (by omega) hy, hty', hty]⟩
  | f64Pair pair i k =>
    obtain ⟨-, hty, op, x, y, hpair, hs, hx, hy⟩ := hshape
    obtain ⟨hxr, hyr, htx, hty'⟩ := operand_types h hr hs (by simp [hpair])
    exact ⟨hout.symm.trans hty, by rw [input_type h (by omega) hx, htx, hty],
      by rw [input_type h (by omega) hy, hty', hty]⟩

/-- The flag of a sweep over the rows of a block. -/
lemma sweep_flag {n : Nat} {f g : Nat → Word × Bool} (hfg : ∀ j, j < n → f j = g j) :
    ((sweep n f).2 = true ↔ ∃ j, j < n ∧ selects none j = true ∧ (g j).2 = true) := by
  rw [sweep_fault]
  constructor
  · rintro ⟨j, hj, hf⟩
    exact ⟨j, hj, rfl, by rwa [← hfg j hj]⟩
  · rintro ⟨j, hj, -, hf⟩
    exact ⟨j, hj, by rwa [hfg j hj]⟩

/-- The raw loop of an addition of a constant. -/
lemma add_flag {i : Nat} {c : Word} (h : Housed p) (hshape : Shape p.nodes p.result (.i64Add i c))
    (e : Engine) {x : List Word} (hlen : x.length = b.n)
    (hx : ∀ j, j < b.n → x.getD j 0 = b.input j i) :
    (e.add x c).1.length = b.n ∧ ((e.add x c).2 = true ↔ b.Faulty F p none) := by
  rw [Engine.add_eq, hlen, blockFaulty_iff h hshape]
  exact ⟨length_sweep _ _, sweep_flag fun j hj => by rw [hx j hj]⟩

/-- The raw loop of twice an input plus an input. -/
lemma fused_flag {i k : Nat} (h : Housed p) (hshape : Shape p.nodes p.result (.fused i k))
    (e : Engine) {x y : List Word} (hlen : x.length = b.n)
    (hx : ∀ j, j < b.n → x.getD j 0 = b.input j i)
    (hy : ∀ j, j < b.n → y.getD j 0 = b.input j k) :
    (e.fused x y).1.length = b.n ∧ ((e.fused x y).2 = true ↔ b.Faulty F p none) := by
  rw [Engine.fused_eq, hlen, blockFaulty_iff h hshape]
  exact ⟨length_sweep _ _, sweep_flag fun j hj => by rw [hx j hj, hy j hj]⟩

lemma length_bytesAt {v : BitSlice} {start len : Nat} {part : List (BitVec 8)}
    (h : v.bytesAt start len = some part) : len % 8 = 0 ∧ part.length = len / 8 := by
  unfold BitSlice.bytesAt at h
  dsimp only at h
  split at h
  · cases h
  · split at h
    · cases h
    · rename_i hguard
      unfold slice? at h
      split at h
      · rename_i hroom
        obtain rfl := Option.some.inj h
        exact ⟨by omega, length_slice hroom⟩
      · cases h

/-- A shape without integers never faults. -/
lemma clean_of_shape (h : Housed p) {shape : Fast} (hshape : Shape p.nodes p.result shape)
    (hfault : ∀ j, shape.fault b j = false) : ¬b.Faulty F p mask := by
  rw [blockFaulty_iff h hshape]
  rintro ⟨j, -, -, hf⟩
  rw [hfault j] at hf
  cases hf

/-- The loops of `run`. -/
lemma denseFast_spec (h : Housed p) {shape : Fast} (hshape : Shape p.nodes p.result shape)
    (hb : b.Fits p.inputs) {values : ColumnValues} (hv : values.Holds p.output (b.row + b.n))
    (e : Engine) :
    ∃ r, denseFast F e (some shape) b values = .ok r ∧
      ∀ after failed, r = some (after, failed) → (failed = true ↔ b.Faulty F p none) := by
  have hin := types_of_shape h hshape
  have hclean : ∀ {after : ColumnValues} (r : Option (ColumnValues × Bool)),
      (∀ j, shape.fault b j = false) → r = some (after, false) →
      ∀ after failed, r = some (after, failed) → (failed = true ↔ b.Faulty F p none) := by
    rintro after r hf rfl after' failed he
    obtain ⟨-, rfl⟩ := Prod.mk.inj (Option.some.inj he)
    exact iff_of_false Bool.false_ne_true (clean_of_shape h hshape hf)
  have hnone : ∃ r, (Except.ok none : Except Stop (Option (ColumnValues × Bool))) = .ok r ∧
      ∀ after failed, r = some (after, failed) → (failed = true ↔ b.Faulty F p none) :=
    ⟨none, rfl, fun _ _ he => nomatch he⟩
  cases shape with
  | i64Add i c =>
    obtain ⟨x, hx, hlen, hat⟩ := i64_spec hb hin.2
    obtain ⟨hl, hflag⟩ := add_flag (F := F) h hshape e hlen hat
    obtain ⟨after, hafter, -⟩ := writeOutput_spec hv hl
    cases values with
    | i64 v =>
      refine ⟨some (after, (e.add x c).2), ?_, fun _ _ he => ?_⟩
      · exact Except.bind_eq_ok.2 ⟨x, hx, Except.bind_eq_ok.2 ⟨after, hafter, rfl⟩⟩
      · obtain ⟨-, rfl⟩ := Prod.mk.inj (Option.some.inj he)
        exact hflag
    | f64 v => exact hnone
    | bool v => exact hnone
  | fused i k =>
    obtain ⟨x, hx, hlen, hat⟩ := i64_spec hb hin.2.1
    obtain ⟨y, hy, -, hat'⟩ := i64_spec hb hin.2.2
    obtain ⟨hl, hflag⟩ := fused_flag (F := F) h hshape e hlen hat hat'
    obtain ⟨after, hafter, -⟩ := writeOutput_spec hv hl
    cases values with
    | i64 v =>
      refine ⟨some (after, (e.fused x y).2), ?_, fun _ _ he => ?_⟩
      · exact Except.bind_eq_ok.2 ⟨x, hx, Except.bind_eq_ok.2 ⟨y, hy,
          Except.bind_eq_ok.2 ⟨after, hafter, rfl⟩⟩⟩
      · obtain ⟨-, rfl⟩ := Prod.mk.inj (Option.some.inj he)
        exact hflag
    | f64 v => exact hnone
    | bool v => exact hnone
  | f64Add i c =>
    obtain ⟨x, hx, hlen⟩ := f64_spec hb hin.2
    obtain ⟨after, hafter, -⟩ := writeOutput_spec hv (show (Engine.floats F x c).length = b.n by
      rw [Engine.floats, List.length_map, List.length_range, hlen])
    cases values with
    | i64 v => exact hnone
    | bool v => exact hnone
    | f64 v =>
      refine ⟨some (after, false), ?_, hclean _ (fun _ => rfl) rfl⟩
      exact Except.bind_eq_ok.2 ⟨x, hx, Except.bind_eq_ok.2 ⟨after, hafter, rfl⟩⟩
  | f64Pair pair i k =>
    obtain ⟨x, hx, hlen⟩ := f64_spec hb hin.2.1
    obtain ⟨y, hy, -⟩ := f64_spec hb hin.2.2
    obtain ⟨after, hafter, -⟩ := writeOutput_spec hv (show (Engine.floatPair F pair x y).length = b.n by
      rw [Engine.floatPair, List.length_map, List.length_range, hlen])
    cases values with
    | i64 v => exact hnone
    | bool v => exact hnone
    | f64 v =>
      refine ⟨some (after, false), ?_, hclean _ (fun _ => rfl) rfl⟩
      exact Except.bind_eq_ok.2 ⟨x, hx, Except.bind_eq_ok.2 ⟨y, hy,
        Except.bind_eq_ok.2 ⟨after, hafter, rfl⟩⟩⟩
  | boolNot i =>
    obtain ⟨column, offset, hat, hty, -⟩ := hb.input i _ hin
    cases values with
    | i64 v => exact hnone
    | f64 v => exact hnone
    | bool bytes =>
      by_cases hrow : b.row % 8 ≠ 0
      · rw [denseFast, if_pos hrow]
        exact hnone
      · cases column with
        | i64 v => cases hty
        | f64 v => cases hty
        | bool v =>
          have hbytes : b.bytes i = .ok (v.bytesAt offset b.n) := by
            rw [Block.bytes, hat]
          cases hpart : v.bytesAt offset b.n with
          | none =>
            rw [hpart] at hbytes
            refine ⟨none, ?_, fun _ _ he => nomatch he⟩
            rw [denseFast, if_neg hrow]
            exact Except.bind_eq_ok.2 ⟨none, hbytes, rfl⟩
          | some part =>
            rw [hpart] at hbytes
            obtain ⟨hn, hl⟩ := length_bytesAt hpart
            have hroom : b.row + b.n ≤ 8 * bytes.length := hv.room
            obtain ⟨after, hsplice⟩ : ∃ after, splice? bytes (b.row / 8) (Engine.bits part)
                = some after := ⟨_, splice?_eq (by rw [Engine.bits, List.length_map]; omega)⟩
            refine ⟨some (.bool after, false), ?_, hclean _ (fun _ => rfl) rfl⟩
            rw [denseFast, if_neg hrow]
            exact Except.bind_eq_ok.2 ⟨some part, hbytes,
              Except.bind_eq_ok.2 ⟨_, by rw [hsplice]; rfl, rfl⟩⟩

/-- The shapes that may overflow. -/
def Fast.overflows : Fast → Bool
  | .i64Add .. | .fused .. => true
  | _ => false

/-- The flag of `masked_fast`: the raw loop decides when every row is selected, else the masked
loop does, if the raw loop raised its flag at all. -/
lemma masked_flag {all : Bool} {raw masked : List Word × Bool} {m : Word}
    (hraw : raw.1.length = b.n ∧ (raw.2 = true ↔ b.Faulty F p none))
    (hmasked : masked.1.length = b.n ∧ (masked.2 = true ↔ b.Faulty F p (some m)))
    (hall : all = true → ∀ j, j < b.n → selects (some m) j = true) :
    (if all then raw else if raw.2 then masked else (Engine.zeroI64 raw.1 m, false)).1.length = b.n ∧
    ((if all then raw else if raw.2 then masked else (Engine.zeroI64 raw.1 m, false)).2 = true ↔
      b.Faulty F p (some m)) := by
  cases hcase : all with
  | true =>
    refine ⟨hraw.1, hraw.2.trans ?_⟩
    constructor
    · rintro ⟨j, hj, -, hf⟩
      exact ⟨j, hj, hall hcase j hj, hf⟩
    · rintro ⟨j, hj, -, hf⟩
      exact ⟨j, hj, rfl, hf⟩
  | false =>
    rw [if_neg Bool.false_ne_true]
    cases hflag : raw.2 with
    | true =>
      rw [if_pos rfl]
      exact hmasked
    | false =>
      rw [if_neg Bool.false_ne_true]
      refine ⟨by rw [Engine.length_zeroI64]; exact hraw.1, iff_of_false Bool.false_ne_true ?_⟩
      rintro ⟨j, hj, -, hf⟩
      rw [hraw.2.2 ⟨j, hj, rfl, hf⟩] at hflag
      cases hflag

/-- The flag of a loop whose lanes count where the mask selects them. -/
lemma sweep_maskedFlag {n : Nat} {m : Word} {f g : Nat → Word × Bool}
    (hfg : ∀ j, j < n → f j = g j) :
    ((sweep n fun j => Engine.maskedLane m j (f j)).2 = true ↔
      ∃ j, j < n ∧ selects (some m) j = true ∧ (g j).2 = true) := by
  rw [sweep_fault]
  constructor
  · rintro ⟨j, hj, hf⟩
    obtain ⟨hf, hv⟩ := (Bool.and_eq_true _ _).mp hf
    exact ⟨j, hj, hv, by rwa [← hfg j hj]⟩
  · rintro ⟨j, hj, hv, hf⟩
    refine ⟨j, hj, ?_⟩
    rw [hfg j hj]
    exact (Bool.and_eq_true _ _).mpr ⟨hf, hv⟩

/-- `masked_fast`. -/
lemma maskedFast_spec (h : Housed p) {shape : Fast} (hshape : Shape p.nodes p.result shape)
    (hover : shape.overflows = true) (hb : b.Fits p.inputs) {values : ColumnValues}
    (hv : values.Holds p.output (b.row + b.n)) (e : Engine) {m : Word} {all : Bool}
    (hall : all = true → ∀ j, j < b.n → selects (some m) j = true) :
    ∃ after failed, maskedFast e shape b values m all = .ok (after, failed) ∧
      (failed = true ↔ b.Faulty F p (some m)) := by
  have hin := types_of_shape h hshape
  have htype := hv.type
  cases shape with
  | i64Add i c =>
    obtain ⟨x, hx, hlen, hat⟩ := i64_spec hb hin.2
    have hmasked : (e.maskedAdd x c m).1.length = b.n ∧
        ((e.maskedAdd x c m).2 = true ↔ b.Faulty F p (some m)) := by
      rw [Engine.maskedAdd_eq, hlen, blockFaulty_iff h hshape]
      exact ⟨length_sweep _ _, sweep_maskedFlag fun j hj => by rw [hat j hj]⟩
    obtain ⟨hl, hflag⟩ := masked_flag (add_flag (F := F) h hshape e hlen hat) hmasked hall
    obtain ⟨after, hafter, -⟩ := writeOutput_spec hv hl
    rw [hin.1] at htype
    cases values with
    | i64 v =>
      exact ⟨after, _, Except.bind_eq_ok.2 ⟨x, hx, Except.bind_eq_ok.2 ⟨after, hafter, rfl⟩⟩, hflag⟩
    | f64 v => cases htype
    | bool v => cases htype
  | fused i k =>
    obtain ⟨x, hx, hlen, hat⟩ := i64_spec hb hin.2.1
    obtain ⟨y, hy, -, hat'⟩ := i64_spec hb hin.2.2
    have hmasked : (e.maskedFused x y m).1.length = b.n ∧
        ((e.maskedFused x y m).2 = true ↔ b.Faulty F p (some m)) := by
      rw [Engine.maskedFused_eq, hlen, blockFaulty_iff h hshape]
      exact ⟨length_sweep _ _, sweep_maskedFlag fun j hj => by rw [hat j hj, hat' j hj]⟩
    obtain ⟨hl, hflag⟩ := masked_flag (fused_flag (F := F) h hshape e hlen hat hat') hmasked hall
    obtain ⟨after, hafter, -⟩ := writeOutput_spec hv hl
    rw [hin.1] at htype
    cases values with
    | i64 v =>
      exact ⟨after, _, Except.bind_eq_ok.2 ⟨x, hx, Except.bind_eq_ok.2 ⟨y, hy,
        Except.bind_eq_ok.2 ⟨after, hafter, rfl⟩⟩⟩, hflag⟩
    | f64 v => cases htype
    | bool v => cases htype
  | f64Add i c => cases hover
  | f64Pair pair i k => cases hover
  | boolNot i => cases hover

/-- The loops of `run_flat`. -/
lemma flatFast_spec (h : Housed p) {shape : Fast} (hshape : Shape p.nodes p.result shape)
    (hfast : p.fast = some shape) (hnot : ∀ i, shape ≠ .boolNot i) (hb : b.Fits p.inputs)
    (e : Engine) :
    ∃ r, flatFast F e p b = .ok r ∧ r.1.length = b.n ∧ (r.2 = true ↔ b.Faulty F p none) := by
  have hin := types_of_shape h hshape
  unfold flatFast
  rw [hfast]
  cases shape with
  | i64Add i c =>
    obtain ⟨x, hx, hlen, hat⟩ := i64_spec hb hin.2
    rw [hin.1]
    exact ⟨_, Except.bind_eq_ok.2 ⟨x, hx, rfl⟩, add_flag h hshape e hlen hat⟩
  | fused i k =>
    obtain ⟨x, hx, hlen, hat⟩ := i64_spec hb hin.2.1
    obtain ⟨y, hy, -, hat'⟩ := i64_spec hb hin.2.2
    rw [hin.1]
    exact ⟨_, Except.bind_eq_ok.2 ⟨x, hx, Except.bind_eq_ok.2 ⟨y, hy, rfl⟩⟩,
      fused_flag h hshape e hlen hat hat'⟩
  | f64Add i c =>
    obtain ⟨x, hx, hlen⟩ := f64_spec hb hin.2
    rw [hin.1]
    refine ⟨_, Except.bind_eq_ok.2 ⟨x, hx, rfl⟩, ?_,
      iff_of_false Bool.false_ne_true (clean_of_shape h hshape fun _ => rfl)⟩
    rw [Engine.floats, List.length_map, List.length_range, hlen]
  | f64Pair pair i k =>
    obtain ⟨x, hx, hlen⟩ := f64_spec hb hin.2.1
    obtain ⟨y, hy, -⟩ := f64_spec hb hin.2.2
    rw [hin.1]
    refine ⟨_, Except.bind_eq_ok.2 ⟨x, hx, Except.bind_eq_ok.2 ⟨y, hy, rfl⟩⟩, ?_,
      iff_of_false Bool.false_ne_true (clean_of_shape h hshape fun _ => rfl)⟩
    rw [Engine.floatPair, List.length_map, List.length_range, hlen]
  | boolNot i => exact absurd rfl (hnot i)

end

end Rnx.Columns
