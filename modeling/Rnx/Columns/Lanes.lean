import Rnx.Columns.Plan
import Rnx.Columns.Vectors
import Rnx.Exec.Straight

/-!
# The meaning of a plan on one row

A node has a value and a fault on every row, whatever earlier nodes did: arithmetic that
overflows goes on with its wrapped word.  The traversals compute these values; a row is
interpreted without an error exactly when none of its nodes faults, and then with these values.
-/

namespace Rnx

/-! ## Integers and words -/

namespace I64

@[simp] lemma ofWord_val (w : BitVec 64) : (ofWord w).val = w.toInt := rfl

lemma ofWord_toWord (a : I64) : ofWord a.toWord = a := by
  refine ext ?_
  have h := a.lower
  have h' := a.upper
  rw [ofWord_val, toWord, BitVec.toInt_ofInt, Int.bmod_def]
  omega

lemma toWord_ofWord (w : BitVec 64) : (ofWord w).toWord = w := by
  rw [toWord, ofWord_val, BitVec.ofInt_toInt]

lemma ofInt?_none {n : Int} (h : n < -2 ^ 63 ∨ 2 ^ 63 ≤ n) : ofInt? n = none := by
  unfold ofInt?
  rw [dif_neg (by omega)]

lemma ofInt?_ofWord {n : Int} {w : BitVec 64} (h : w.toInt = n) : ofInt? n = some (ofWord w) :=
  ofInt?_eq_some.2 h

end I64

/-! ## The order of floats -/

namespace F64

/-- The magnitude of a pattern. -/
lemma magnitude_eq (a : F64) : (a.bits &&& 0x7FFFFFFFFFFFFFFF#64).toNat = a.bits.toNat % 2 ^ 63 := by
  rw [BitVec.toNat_and, show (0x7FFFFFFFFFFFFFFF#64).toNat = 2 ^ 63 - 1 from rfl,
    Nat.and_two_pow_sub_one_eq_mod]

/-- Two patterns have one key when they are equal or both are zeros. -/
lemma key_eq_iff (a b : F64) : a.key = b.key ↔ (a.bits = b.bits ∨ (a.isZero ∧ b.isZero)) := by
  have hz : ∀ c : F64, c.isZero = true ↔ c.bits.toNat % 2 ^ 63 = 0 := by
    intro c
    rw [isZero, beq_iff_eq, ← magnitude_eq]
    exact ⟨fun h => by rw [h]; rfl, fun h => BitVec.eq_of_toNat_eq (by simpa using h)⟩
  have hk : ∀ c : F64, c.key = if 2 ^ 63 ≤ c.bits.toNat then -((c.bits.toNat % 2 ^ 63 : Nat) : Int)
      else ((c.bits.toNat % 2 ^ 63 : Nat) : Int) := by
    intro c
    unfold key
    dsimp only
    rw [magnitude_eq, BitVec.msb_eq_decide]
    simp
  have he : a.bits = b.bits ↔ a.bits.toNat = b.bits.toNat :=
    ⟨fun h => by rw [h], fun h => BitVec.eq_of_toNat_eq h⟩
  have ha := a.bits.isLt
  have hb := b.bits.isLt
  rw [hk, hk, hz, hz, he]
  split <;> split <;> omega

/-- Floats compare equal when neither is a NaN and their keys agree. -/
lemma eqv_eq (a b : F64) : a.eqv b = (!a.isNan && !b.isNan && decide (a.key = b.key)) := by
  have h := key_eq_iff a b
  have hd : (a.bits == b.bits || (a.isZero && b.isZero)) = decide (a.key = b.key) := by
    rw [Bool.eq_iff_iff]
    simp [h]
  rw [eqv, hd]

lemma le_eq (a b : F64) : a.le b = (a.lt b || a.eqv b) := by
  rw [le, lt, eqv_eq, ← Bool.and_or_distrib_left, ← Bool.decide_or]
  congr 1
  exact decide_eq_decide.2 le_iff_lt_or_eq

lemma eqv_comm (a b : F64) : a.eqv b = b.eqv a := by
  rw [eqv_eq, eqv_eq, Bool.and_comm (!a.isNan)]
  congr 1
  exact decide_eq_decide.2 eq_comm

lemma lt_of_eqv {a b : F64} (h : a.eqv b = true) : a.lt b = false := by
  rw [eqv_eq, Bool.and_eq_true, decide_eq_true_eq] at h
  rw [lt, decide_eq_false (by omega), Bool.and_false]

lemma lt_asymm {a b : F64} (h : a.lt b = true) : b.lt a = false := by
  rw [lt, Bool.and_eq_true, decide_eq_true_eq] at h
  rw [lt, decide_eq_false (by omega), Bool.and_false]

end F64

namespace Columns

open Exec

/-! ## Values -/

/-- The value a word stands for in a column of a type. -/
def toValue : ColumnType → Word → Value
  | .i64, w => .i64 (.ofWord w)
  | .f64, w => .f64 ⟨w⟩
  | .bool, w => .bool (w != 0)

/-- A word of the type: a Boolean is zero or one. -/
def WordOf (ty : ColumnType) (w : Word) : Prop := ty = .bool → w = 0 ∨ w = 1

lemma wordOf_bool (ty : ColumnType) (b : Bool) : WordOf ty (bool b) := by
  cases b
  · exact fun _ => .inl rfl
  · exact fun _ => .inr rfl

lemma bool_ne_zero (b : Bool) : (bool b != 0) = b := by cases b <;> rfl

lemma bool_of_wordOf {w : Word} (h : WordOf .bool w) : bool (w != 0) = w := by
  rcases h rfl with rfl | rfl <;> rfl

/-! ## One operator -/

/-- What the interpreter does with an operator whose lane value and fault are given: a fault is an
overflow. -/
def Agrees (result : Primitive Value) (ty : ColumnType) (lane : Word × Bool) : Prop :=
  (lane.2 = false → result = .ok (toValue ty lane.1)) ∧
    (lane.2 = true → ∃ e : PrimitiveError, e.kind = .overflow ∧ result = .error e)

lemma agrees_value {result : Primitive Value} {ty : ColumnType} {w : Word}
    (h : result = .ok (toValue ty w)) : Agrees result ty (w, false) :=
  ⟨fun _ => h, fun hf => nomatch hf⟩

/-- A checked result that is the wrapped word unless it overflows. -/
lemma agrees_checked {n : Int} {w : Word} {fault : Bool} {e : PrimitiveError}
    (he : e.kind = .overflow) (hv : fault = false → w.toInt = n)
    (ho : fault = true → n < -2 ^ 63 ∨ 2 ^ 63 ≤ n) :
    Agrees ((okOr (I64.ofInt? n) e).map Value.i64) .i64 (w, fault) := by
  refine ⟨fun hf => ?_, fun hf => ⟨e, he, ?_⟩⟩
  · rw [I64.ofInt?_ofWord (hv hf)]
    rfl
  · rw [I64.ofInt?_none (ho hf)]
    rfl

lemma operate_i64 (F : FloatOps) {op : Binary} {t : ColumnType} (a b : Word)
    (ht : binaryType op .i64 .i64 = .ok t) :
    Agrees (operate F op (toValue .i64 a) (toValue .i64 b)) t (binary F op .i64 a b) := by
  have hcmp : (a == b) = (a.toInt == b.toInt) := by
    rw [Bool.eq_iff_iff, beq_iff_eq, beq_iff_eq]
    exact ⟨fun h => by rw [h], BitVec.eq_of_toInt_eq⟩
  cases op <;> cases ht
  case add =>
    refine agrees_checked rfl (fun hf => ?_) (fun hf => ?_)
    · exact BitVec.toInt_add_of_not_saddOverflow (by simpa using hf)
    · rwa [saddOverflow_iff, decide_eq_true_eq] at hf
  case sub =>
    refine agrees_checked rfl (fun hf => ?_) (fun hf => ?_)
    · exact BitVec.toInt_sub_of_not_ssubOverflow (by simpa using hf)
    · rwa [ssubOverflow_iff, decide_eq_true_eq] at hf
  case mul =>
    refine agrees_checked rfl (fun hf => ?_) (fun hf => ?_)
    · exact BitVec.toInt_mul_of_not_smulOverflow (by simpa using hf)
    · rwa [smulOverflow_iff, decide_eq_true_eq] at hf
  all_goals
    refine agrees_value ?_
    simp only [toValue, comparison, bool_ne_zero, hcmp, BitVec.slt, BitVec.sle]
    rfl

lemma compareScalars_f64 (F : FloatOps) {op : Binary} (x y : F64) (h : isComparison op = true) :
    compareScalars F op (.f64 x) (.f64 y)
      = .ok (.bool (comparison op (x.eqv y) (x.lt y) (x.le y) (y.lt x) (y.le x) != 0)) := by
  have horder : scalarOrder F op (.f64 x) (.f64 y) = .ok (if x.eqv y then some .eq
      else if op = .eq ∨ op = .ne then some .lt
      else if x.lt y then some .lt else if y.lt x then some .gt else none) := by
    change (if Value.bool (x.eqv y) = .bool true then _ else _) = _
    have hne : ¬ Value.bool false = .bool true := by simp
    cases x.eqv y
    · rw [if_neg hne, if_neg Bool.false_ne_true]
      by_cases hop : op = .eq ∨ op = .ne
      · rw [if_pos hop, if_pos hop]
      · rw [if_neg hop, if_neg hop]
        change Except.ok (if Value.bool (x.lt y) = .bool true then some Ordering.lt
          else if Value.bool (y.lt x) = .bool true then some .gt else none) = _
        simp
    · rfl
  unfold compareScalars
  rw [horder]
  change Exec.compare op _ _ _ = _
  have heq : x.eqv y = true → x.lt y = false ∧ y.lt x = false := fun he =>
    ⟨F64.lt_of_eqv he, F64.lt_of_eqv (by rwa [F64.eqv_comm])⟩
  have hasymm : x.lt y = true → y.lt x = false := F64.lt_asymm
  rw [F64.le_eq x y, F64.le_eq y x, F64.eqv_comm y x]
  revert heq hasymm
  generalize x.eqv y = e
  generalize x.lt y = l
  generalize y.lt x = g
  intro heq hasymm
  have horders : (e = true ∧ l = false ∧ g = false) ∨ (e = false ∧ l = true ∧ g = false) ∨
      (e = false ∧ l = false) := by
    cases e
    · cases l
      · exact .inr (.inr ⟨rfl, rfl⟩)
      · exact .inr (.inl ⟨rfl, rfl, hasymm rfl⟩)
    · exact .inl ⟨rfl, heq rfl⟩
  rcases horders with ⟨rfl, rfl, rfl⟩ | ⟨rfl, rfl, rfl⟩ | ⟨rfl, rfl⟩
  case inr.inr => cases g <;> cases op <;> first | exact absurd h Bool.false_ne_true | rfl
  all_goals cases op <;> first | exact absurd h Bool.false_ne_true | rfl

lemma operate_f64 (F : FloatOps) {op : Binary} {t : ColumnType} (a b : Word)
    (ht : binaryType op .f64 .f64 = .ok t) :
    Agrees (operate F op (toValue .f64 a) (toValue .f64 b)) t (binary F op .f64 a b) := by
  cases op <;> cases ht
  case add => exact agrees_value rfl
  case sub => exact agrees_value rfl
  case mul => exact agrees_value rfl
  all_goals exact agrees_value (compareScalars_f64 F _ _ rfl)

lemma operate_bool (F : FloatOps) {op : Binary} {t : ColumnType} {a b : Word}
    (ha : WordOf .bool a) (hb : WordOf .bool b) (ht : binaryType op .bool .bool = .ok t) :
    Agrees (operate F op (toValue .bool a) (toValue .bool b)) t (binary F op .bool a b) := by
  cases op <;> cases ht
  all_goals
    refine agrees_value ?_
    rcases ha rfl with rfl | rfl <;> rcases hb rfl with rfl | rfl <;> rfl

lemma binaryType_same {op : Binary} {ty ty' t : ColumnType} (ht : binaryType op ty ty' = .ok t) :
    ty = ty' := by
  by_contra hne
  unfold binaryType at ht
  rw [if_pos hne] at ht
  cases ht

/-- An operator on lanes agrees with the interpreter's operator on their values. -/
lemma operate_agrees (F : FloatOps) {op : Binary} {ty ty' t : ColumnType} {a b : Word}
    (ha : WordOf ty a) (hb : WordOf ty' b) (ht : binaryType op ty ty' = .ok t) :
    Agrees (operate F op (toValue ty a) (toValue ty' b)) t (binary F op ty a b) := by
  obtain rfl := binaryType_same ht
  cases ty
  · exact operate_i64 F a b ht
  · exact operate_f64 F a b ht
  · exact operate_bool F ha hb ht

/-- A Boolean result is zero or one. -/
lemma binary_wordOf (F : FloatOps) {op : Binary} {ty ty' t : ColumnType} {a b : Word}
    (ha : WordOf ty a) (hb : WordOf ty' b) (ht : binaryType op ty ty' = .ok t) :
    WordOf t (binary F op ty a b).1 := by
  obtain rfl := binaryType_same ht
  intro hb'
  subst hb'
  cases ty
  case bool =>
    rcases ha rfl with rfl | rfl <;> rcases hb rfl with rfl | rfl <;> cases op <;>
      first
      | exact .inl rfl
      | exact .inr rfl
  all_goals
    cases op <;> cases ht <;> exact wordOf_bool .bool _ rfl

/-! ## The nodes of a row -/

/-- The value and the fault of a step, from the values of earlier nodes. -/
def stepLane (F : FloatOps) (nodes : List Node) (input value : Nat → Word) : Step → Word × Bool
  | .input column => (input column, false)
  | .constant v => (v, false)
  | .not a => (bool (value a == 0), false)
  | .binary op a b => binary F op (nodeAt nodes a).ty (value a) (value b)

/-- The values and faults of the first nodes. -/
def lanes (F : FloatOps) (nodes : List Node) (input : Nat → Word) : Nat → List (Word × Bool)
  | 0 => []
  | k + 1 =>
      let before := lanes F nodes input k
      before ++ [stepLane F nodes input (fun a => (before.getD a (0, false)).1)
        (nodeAt nodes k).step]

/-- The value and the fault of a node. -/
def lane (F : FloatOps) (nodes : List Node) (input : Nat → Word) (k : Nat) : Word × Bool :=
  (lanes F nodes input (k + 1)).getD k (0, false)

@[simp] lemma length_lanes (F : FloatOps) (nodes : List Node) (input : Nat → Word) (k : Nat) :
    (lanes F nodes input k).length = k := by
  induction k with
  | zero => rfl
  | succ k ih => simp [lanes, ih]

lemma getD_lanes (F : FloatOps) (nodes : List Node) (input : Nat → Word) {k a : Nat} (h : a < k) :
    (lanes F nodes input k).getD a (0, false) = lane F nodes input a := by
  induction k with
  | zero => omega
  | succ k ih =>
    rcases Nat.lt_or_eq_of_le (Nat.le_of_lt_succ h) with hlt | rfl
    · rw [← ih hlt, lanes, List.getD_eq_getElem?_getD,
        List.getElem?_append_left (by rw [length_lanes]; exact hlt), ← List.getD_eq_getElem?_getD]
    · rfl

/-- A node is the step of the nodes before it. -/
lemma lane_eq (F : FloatOps) (nodes : List Node) (input : Nat → Word) {k : Nat}
    (h : ∀ a ∈ (nodeAt nodes k).step.deps, a < k) :
    lane F nodes input k
      = stepLane F nodes input (fun a => (lane F nodes input a).1) (nodeAt nodes k).step := by
  have hget : lane F nodes input k = stepLane F nodes input
      (fun a => ((lanes F nodes input k).getD a (0, false)).1) (nodeAt nodes k).step := by
    rw [lane, lanes, List.getD_eq_getElem?_getD,
      List.getElem?_append_right (by rw [length_lanes]), length_lanes, Nat.sub_self]
    rfl
  rw [hget]
  rcases hs : (nodeAt nodes k).step with c | v | ⟨op, a, b⟩ | a <;> rw [hs] at h
  · rfl
  · rfl
  · simp only [stepLane, getD_lanes F nodes input (h a (by simp [Step.deps])),
      getD_lanes F nodes input (h b (by simp [Step.deps]))]
  · simp only [stepLane, getD_lanes F nodes input (h a (by simp [Step.deps]))]

/-! ## Typed nodes -/

/-- A step reads nodes before `k`, of the types it needs for a value of type `ty`. -/
def TypedStep (inputs : List ColumnType) (nodes : List Node) (k : Nat) (ty : ColumnType) :
    Step → Prop
  | .input c => inputs[c]? = some ty
  | .constant v => WordOf ty v
  | .binary op a b => a < k ∧ b < k ∧ binaryType op (nodeAt nodes a).ty (nodeAt nodes b).ty = .ok ty
  | .not a => a < k ∧ (nodeAt nodes a).ty = .bool ∧ ty = .bool

/-- A node whose step is typed. -/
def TypedNode (inputs : List ColumnType) (nodes : List Node) (k : Nat) : Prop :=
  TypedStep inputs nodes k (nodeAt nodes k).ty (nodeAt nodes k).step

/-- Every node is typed. -/
def Typed (inputs : List ColumnType) (nodes : List Node) : Prop :=
  ∀ k, k < nodes.length → TypedNode inputs nodes k

/-- The words of a row are of the input types. -/
def TypedRow (inputs : List ColumnType) (input : Nat → Word) : Prop :=
  ∀ c ty, inputs[c]? = some ty → WordOf ty (input c)

lemma TypedStep.deps_lt {inputs : List ColumnType} {nodes : List Node} {k : Nat}
    {ty : ColumnType} {step : Step} (h : TypedStep inputs nodes k ty step) :
    ∀ a ∈ step.deps, a < k := by
  intro a ha
  rcases step with c | v | ⟨op, x, y⟩ | x
  · simp [Step.deps] at ha
  · simp [Step.deps] at ha
  · rcases List.mem_pair.1 ha with rfl | rfl
    · exact h.1
    · exact h.2.1
  · obtain rfl := List.mem_singleton.1 ha
    exact h.1

section

variable {F : FloatOps} {inputs : List ColumnType} {nodes : List Node} {input : Nat → Word}

lemma lane_of_typed (ht : Typed inputs nodes) {k : Nat} (hk : k < nodes.length) :
    lane F nodes input k
      = stepLane F nodes input (fun a => (lane F nodes input a).1) (nodeAt nodes k).step :=
  lane_eq F nodes input (TypedStep.deps_lt (ht k hk))

/-- Values of typed nodes are words of their types. -/
lemma lane_wordOf (ht : Typed inputs nodes) (hi : TypedRow inputs input) {k : Nat}
    (hk : k < nodes.length) : WordOf (nodeAt nodes k).ty (lane F nodes input k).1 := by
  induction k using Nat.strong_induction_on with
  | _ k ih =>
    have hn : TypedStep inputs nodes k _ _ := ht k hk
    rw [lane_of_typed ht hk]
    rcases hs : (nodeAt nodes k).step with c | v | ⟨op, a, b⟩ | a <;> rw [hs] at hn
    · exact hi c _ hn
    · exact hn
    · obtain ⟨ha, hb, hty⟩ := hn
      exact binary_wordOf F (ih a ha (by omega)) (ih b hb (by omega)) hty
    · exact wordOf_bool _ _

end

/-- Nodes with the same steps and types have the same lanes. -/
lemma lane_congr (F : FloatOps) (input : Nat → Word) {nodes nodes' : List Node} {n : Nat}
    (hsame : ∀ k, k < n → (nodeAt nodes' k).step = (nodeAt nodes k).step ∧
      (nodeAt nodes' k).ty = (nodeAt nodes k).ty)
    (hdeps : ∀ k, k < n → ∀ a ∈ (nodeAt nodes k).step.deps, a < k) {k : Nat} (hk : k < n) :
    lane F nodes' input k = lane F nodes input k := by
  induction k using Nat.strong_induction_on with
  | _ k ih =>
    have hd := hdeps k hk
    rw [lane_eq F nodes input hd, lane_eq F nodes' input (by rw [(hsame k hk).1]; exact hd),
      (hsame k hk).1]
    rcases hs : (nodeAt nodes k).step with c | v | ⟨op, a, b⟩ | a <;> rw [hs] at hd
    · rfl
    · rfl
    · have ha : a < k := hd a (by simp [Step.deps])
      have hb : b < k := hd b (by simp [Step.deps])
      simp only [stepLane, ih a ha (by omega), ih b hb (by omega), (hsame a (by omega)).2]
    · have ha : a < k := hd a (by simp [Step.deps])
      simp only [stepLane, ih a ha (by omega)]

lemma nodeAt_append {nodes more : List Node} {k : Nat} (h : k < nodes.length) :
    nodeAt (nodes ++ more) k = nodeAt nodes k := by
  simp [nodeAt, List.getElem?_append_left h]

lemma nodeAt_length (nodes : List Node) (n : Node) : nodeAt (nodes ++ [n]) nodes.length = n := by
  simp [nodeAt]

/-- Further nodes do not change the lanes of typed ones. -/
lemma lane_append (F : FloatOps) (input : Nat → Word) {inputs : List ColumnType}
    {nodes : List Node} (ht : Typed inputs nodes) (more : List Node) {k : Nat}
    (hk : k < nodes.length) : lane F (nodes ++ more) input k = lane F nodes input k :=
  lane_congr F input
    (fun k hk => by rw [nodeAt_append hk]; exact ⟨rfl, rfl⟩) (fun k hk => TypedStep.deps_lt (ht k hk)) hk

/-- A step that reads old nodes has the same lane among more nodes with the same lanes. -/
lemma stepLane_append {F : FloatOps} {nodes more : List Node} {input : Nat → Word} {step : Step}
    (hd : ∀ a ∈ step.deps, a < nodes.length)
    (hl : ∀ k, k < nodes.length → lane F (nodes ++ more) input k = lane F nodes input k) :
    stepLane F (nodes ++ more) input (fun a => (lane F (nodes ++ more) input a).1) step
      = stepLane F nodes input (fun a => (lane F nodes input a).1) step := by
  rcases step with c | v | ⟨op, a, b⟩ | a
  · rfl
  · rfl
  · have ha : a < nodes.length := hd a (by simp [Step.deps])
    have hb : b < nodes.length := hd b (by simp [Step.deps])
    simp only [stepLane, hl a ha, hl b hb, nodeAt_append ha]
  · have ha : a < nodes.length := hd a (by simp [Step.deps])
    simp only [stepLane, hl a ha]

/-- Some node of the row faults. -/
def Faulty (F : FloatOps) (nodes : List Node) (input : Nat → Word) : Prop :=
  ∃ k, k < nodes.length ∧ (lane F nodes input k).2 = true

end Columns

end Rnx
