import Rnx.Exec.Straight
import Rnx.Store.StructuralOrder

/-!
# The fast paths of the interpreter

Two signed integers skip the general operator, a scalar in a slot is not released, and a window
that holds only scalars is dropped in one step.  Each is compared with the path it stands in for:
the operator with `binary`, and `put` and `leave` with the same code where every slot goes through
`Store::release`.
-/

namespace Rnx

open ErrState (get update ofExcept fail read)

namespace Store

/-! ## The general operator -/

/-- `Store::compare`. -/
def compare (F : FloatOps) (T : TypeTable) (room : Nat → Bool) (fuel : Nat) (op : Binary)
    (a b : Value) : M (Option Value) := do
  match ← ordering F T op false room fuel a b with
  | none => pure none
  | some result =>
      let value ← ofExcept (Exec.lift
        (Exec.compare op (result == some .eq) (result == some .lt) (result == some .gt)))
      pure (some value)

end Store

namespace Exec

/-- Two values that are strings. -/
def stringPair (a b : Value) : M Bool := do
  match a, b with
  | .heap left, .heap right => do
      let left ← read (·.tag (.heap left))
      if left = .string then do
        let right ← read (·.tag (.heap right))
        pure (right = .string)
      else pure false
  | _, _ => pure false

/-- `binary`: there is no answer while the fuel of a comparison is too little. -/
def binary (F : FloatOps) (T : TypeTable) (room : Nat → Bool) (fuel : Nat) (op : Binary)
    (a b : Value) : M (Option Value) := do
  let strings ← stringPair a b
  if strings = true then
    if op = .add then do
      let value ← Store.concatString a b
      pure (some value)
    else do
      let left ← read (·.text a)
      let right ← read (·.text b)
      let order := textOrder left right
      let value ← ofExcept (lift (compare op (order == .eq) (order == .lt) (order == .gt)))
      pure (some value)
  else if isComparison op then Store.compare F T room fuel op a b
  else do
    let value ← ofExcept (lift (arithmeticBinary F op a b))
    pure (some value)

/-! ## Frames and slots -/

/-- `Frame`. -/
structure Frame where
  function : Nat
  callsitePc : Nat
  pc : Nat
  base : Nat
  out : Option Nat

/-- The frames of an executor, innermost first, its slots and the store it runs on. -/
structure Machine where
  frames : List Frame
  slots : List Value
  store : Store

/-- A step of the executor. -/
abbrev Stepping := ErrState Error Machine

/-- A call of the store. -/
def onStore {α : Type} (call : M α) : Stepping α := fun m =>
  match call m.store with
  | (r, s) => (r, { m with store := s })

namespace Machine

/-- `self.frames.pop()`. -/
def popFrame : Stepping Frame := do
  let m ← get
  match m.frames with
  | [] => fail (.new .invalidCode "execute")
  | frame :: frames => do
      update fun m => { m with frames := frames }
      pure frame

/-- `self.slots.pop()`. -/
def popSlot : Stepping Value := do
  let m ← get
  match m.slots.getLast? with
  | none => fail (.new .invalidCode "execute")
  | some v => do
      update fun m => { m with slots := m.slots.dropLast }
      pure v

/-- The slots from `base` on are there and hold only scalars. -/
def scalarWindow (slots : List Value) (base : Nat) : Bool :=
  decide (base ≤ slots.length) && (slots.drop base).all Store.isSlotScalar

/-- The loop of `leave`: the slots above `base` go one by one. -/
def releaseAbove (free : Value → M Unit) (base : Nat) : Nat → Stepping Unit
  | 0 => pure ()
  | n + 1 => do
      let m ← get
      if base < m.slots.length then do
        let v ← popSlot
        onStore (free v)
        releaseAbove free base n
      else pure ()

/-- `put`: the value that the slot held is released. -/
def put (index : Nat) (value : Value) : Stepping Unit := do
  let m ← get
  let old ← ofExcept (okOr m.slots[index]? (.new .invalidCode "execute"))
  update fun m => { m with slots := m.slots.set index value }
  onStore (Store.releaseSlot old)

/-- `leave`: a window of scalars is dropped in one step where their releases would do nothing. -/
def leave : Stepping Unit := do
  let frame ← popFrame
  let m ← get
  if m.store.scalarReleaseIsNoop && scalarWindow m.slots frame.base then
    update fun m => { m with slots := m.slots.take frame.base }
  else releaseAbove Store.releaseSlot frame.base m.slots.length

/-! ## The paths without shortcuts -/

/-- `put` where the old value goes through `Store::release`. -/
def putReleasing (index : Nat) (value : Value) : Stepping Unit := do
  let m ← get
  let old ← ofExcept (okOr m.slots[index]? (.new .invalidCode "execute"))
  update fun m => { m with slots := m.slots.set index value }
  onStore (Store.release old)

/-- `leave` where every slot goes through `Store::release`. -/
def leaveReleasing : Stepping Unit := do
  let frame ← popFrame
  let m ← get
  releaseAbove Store.release frame.base m.slots.length

end Machine

/-! ## Releases -/

/-- A value that is no handle leaves an open store with nothing queued as it is. -/
lemma release_scalar {v : Value} {s : Store} (hv : Store.isSlotScalar v = true)
    (hs : s.scalarReleaseIsNoop = true) : Store.release v s = (.ok (), s) := by
  unfold Store.scalarReleaseIsNoop at hs
  rw [Bool.and_eq_true, Bool.not_eq_true', List.isEmpty_iff] at hs
  obtain ⟨hopen, hwork⟩ := hs
  have hdrain : Store.drainWork none s = (.ok (), s) := by
    unfold Store.drainWork Store.drainFuel
    rw [ErrState.run_get_bind]
    unfold Store.drainLoop
    rw [ErrState.run_get_bind, hwork]
    rfl
  have hensure : Store.ensureOpen s = (.ok (), s) := by
    unfold Store.ensureOpen
    rw [ErrState.run_get_bind, hopen]
    rfl
  cases v with
  | heap h => cases hv
  | _ =>
      unfold Store.release
      rw [ErrState.run_bind hensure]
      exact hdrain

/-- The shortcut of a slot's release changes nothing. -/
lemma releaseSlot_eq (v : Value) : Store.releaseSlot v = Store.release v := by
  funext s
  by_cases h : Store.isSlotScalar v = true ∧ s.scalarReleaseIsNoop = true
  · rw [Store.releaseSlot_scalar h.1 h.2, release_scalar h.1 h.2]
  · unfold Store.releaseSlot
    rw [ErrState.run_get_bind, if_neg (by rwa [Bool.and_eq_true])]

namespace Machine

lemma put_eq (index : Nat) (value : Value) : put index value = putReleasing index value := by
  unfold put putReleasing
  simp only [releaseSlot_eq]

/-! ## Windows -/

variable {frames : List Frame} {slots : List Value} {s : Store} {base : Nat}

lemma popSlot_concat (v : Value) :
    popSlot ⟨frames, slots ++ [v], s⟩ = (.ok v, ⟨frames, slots, s⟩) := by
  unfold popSlot
  rw [ErrState.run_get_bind]
  dsimp only
  rw [List.getLast?_concat]
  show (Except.ok v, (⟨frames, (slots ++ [v]).dropLast, s⟩ : Machine)) = _
  rw [List.dropLast_concat]

/-- Scalars above `base` go without a trace in the store. -/
lemma releaseAbove_scalars (hs : s.scalarReleaseIsNoop = true) (n : Nat)
    (hbase : base ≤ slots.length) (hn : slots.length ≤ base + n)
    (hscalar : ∀ v ∈ slots.drop base, Store.isSlotScalar v = true) :
    releaseAbove Store.release base n ⟨frames, slots, s⟩ =
      (.ok (), ⟨frames, slots.take base, s⟩) := by
  induction n generalizing slots with
  | zero =>
      rw [List.take_of_length_le (by omega)]
      rfl
  | succ n ih =>
      unfold releaseAbove
      rw [ErrState.run_get_bind]
      dsimp only
      by_cases hlt : base < slots.length
      · rcases List.eq_nil_or_concat' slots with rfl | ⟨rest, v, rfl⟩
        · exact absurd hlt (Nat.not_lt_zero _)
        · rw [List.length_append, List.length_singleton] at hlt hn
          have hrest : base ≤ rest.length := by omega
          rw [List.drop_append_of_le_length hrest] at hscalar
          have hv : Store.isSlotScalar v = true :=
            hscalar v (List.mem_append_right _ List.mem_cons_self)
          have hfree : onStore (Store.release v) ⟨frames, rest, s⟩ = (.ok (), ⟨frames, rest, s⟩) := by
            unfold onStore
            rw [release_scalar hv hs]
          rw [if_pos (by rw [List.length_append]; exact hlt), ErrState.run_bind (popSlot_concat v),
            ErrState.run_bind hfree, List.take_append_of_le_length hrest]
          exact ih hrest (by omega) fun w hw => hscalar w (List.mem_append_left _ hw)
      · rw [if_neg hlt, List.take_of_length_le (by omega)]
        rfl

lemma leave_eq : leave = leaveReleasing := by
  funext m
  obtain ⟨frames, slots, s⟩ := m
  cases frames with
  | nil => rfl
  | cons frame frames =>
      have hpop : popFrame ⟨frame :: frames, slots, s⟩ = (.ok frame, ⟨frames, slots, s⟩) := rfl
      unfold leave leaveReleasing
      rw [ErrState.run_bind hpop, ErrState.run_bind hpop, ErrState.run_get_bind,
        ErrState.run_get_bind, show Store.releaseSlot = Store.release from funext releaseSlot_eq]
      dsimp only
      by_cases h : (s.scalarReleaseIsNoop && scalarWindow slots frame.base) = true
      · rw [if_pos h]
        unfold scalarWindow at h
        rw [Bool.and_eq_true, Bool.and_eq_true, decide_eq_true_eq, List.all_eq_true] at h
        obtain ⟨hs, hbase, hscalar⟩ := h
        exact (releaseAbove_scalars hs _ hbase (Nat.le_add_left _ _) hscalar).symm
      · rw [if_neg h]

end Machine

/-! ## Two signed integers -/

/-- Where the fast path answers, it answers as `arithmetic::binary` does. -/
lemma fastI64_eq (op : Binary) (a b : I64) : fastI64 op (.i64 a) (.i64 b) = none ∨
    fastI64 op (.i64 a) (.i64 b) = some (binaryI64 op (.i64 a) (.i64 b) a b) := by
  have hle : ∀ a b : Int, decide (a ≤ b) = (decide (a < b) || a == b) := by
    intro a b
    rw [Bool.eq_iff_iff, Bool.or_eq_true, decide_eq_true_eq, decide_eq_true_eq, beq_iff_eq]
    exact le_iff_lt_or_eq
  cases op
  case div =>
    right
    dsimp only [fastI64, binaryI64, I64.checkedDiv]
    split_ifs <;> rfl
  case rem =>
    right
    dsimp only [fastI64, binaryI64, I64.checkedRem]
    by_cases hzero : b.val = 0
    · rw [if_pos hzero, if_pos hzero]
    · rw [if_neg hzero, if_neg hzero]
      by_cases hover : b.val = -1 ∧ a.val = -2 ^ 63
      · rw [if_pos hover, if_pos (.inr hover.symm)]
        rfl
      · rw [if_neg hover, if_neg (by omega)]
  case le =>
    right
    dsimp only [fastI64]
    rw [hle]
    rfl
  case ge =>
    right
    dsimp only [fastI64]
    rw [hle, BEq.comm]
    rfl
  all_goals first | exact .inl rfl | exact .inr rfl

/-- The order of two signed integers, as far as an operator asks for it. -/
def orderI64 (op : Binary) (a b : I64) : Ordering :=
  if a.val = b.val then .eq
  else if Store.isEquality op then .lt
  else if a.val < b.val then .lt else .gt

lemma relateScalars_i64 (F : FloatOps) (T : TypeTable) (op : Binary) (rhs : TypeName) (a b : I64)
    (s : Store) : s.relateScalars F T op false rhs (.i64 a) (.i64 b) =
      .ok (.decided (some (orderI64 op a b))) := by
  show (if Value.bool (a.val == b.val) = .bool true then _
    else if Store.isEquality op = true then _ else _) = _
  unfold orderI64
  by_cases heq : a.val = b.val
  · rw [if_pos heq, if_pos (by rw [beq_iff_eq.2 heq])]
  · rw [if_neg heq, if_neg (by simpa using heq)]
    split_ifs with hequality hlt
    · rfl
    · show Except.ok (Relation.decided (if Value.bool (decide (a.val < b.val)) = .bool true then _ else _)) = _
      rw [if_pos (by rw [decide_eq_true hlt])]
    · show Except.ok (Relation.decided (if Value.bool (decide (a.val < b.val)) = .bool true then _
        else if Value.bool (decide (b.val < a.val)) = .bool true then _ else _)) = _
      rw [if_neg (by simpa using hlt), if_pos (by simp; omega)]

lemma relate_i64 (F : FloatOps) (T : TypeTable) (op : Binary) (a b : I64) (s : Store) :
    s.relate F T op false (.value (.i64 a)) (.value (.i64 b)) =
      .ok (.decided (some (orderI64 op a b))) := relateScalars_i64 F T op .i64 a b s

/-- Two signed integers are compared in one round, and a second one ends the walk. -/
lemma ordering_i64 (F : FloatOps) (T : TypeTable) (op : Binary) (room : Nat → Bool) (fuel : Nat)
    (a b : I64) (s : Store) :
    Store.ordering F T op false room (fuel + 2) (.i64 a) (.i64 b) s =
      (.ok (some (some (orderI64 op a b))), s) := by
  have hhandle : (s.comparing F T op false room).handle (.pair (.value (.i64 a)) (.value (.i64 b)) 1) =
      .ok (.answer (some (orderI64 op a b))) := by
    rw [Store.comparing_handle]
    unfold Store.compareTask
    dsimp only
    rw [if_neg (by decide), relate_i64]
    rfl
  have hrun : s.compareOrder F T op false room (fuel + 2) (.i64 a) (.i64 b) =
      some (.ok (some (orderI64 op a b))) := by
    unfold Store.compareOrder
    rw [Decision.Engine.run_answer hhandle]
    by_cases h : some (orderI64 op a b) = some .eq
    · rw [h]
      rfl
    · exact Decision.Engine.resume_ok h _
  exact Store.ordering_answered hrun

/-- What the order says of an operator is what the operator says of the integers. -/
lemma compare_orderI64 {op : Binary} (hop : isComparison op = true) (a b : I64) :
    compare op (some (orderI64 op a b) == some .eq) (some (orderI64 op a b) == some .lt)
      (some (orderI64 op a b) == some .gt) = binaryI64 op (.i64 a) (.i64 b) a b := by
  have hbinary : binaryI64 op (.i64 a) (.i64 b) a b =
      compare op (a.val == b.val) (decide (a.val < b.val)) (decide (b.val < a.val)) := by
    cases op <;> first | rfl | cases hop
  rw [hbinary]
  unfold orderI64
  rcases lt_trichotomy a.val b.val with h | h | h
  · have hne : (a.val == b.val) = false := beq_eq_false_iff_ne.2 (by omega)
    rw [if_neg (by omega), if_pos h, hne, decide_eq_true h, decide_eq_false (by omega)]
    cases op <;> rfl
  · rw [if_pos h, beq_iff_eq.2 h, decide_eq_false (by omega), decide_eq_false (by omega)]
    cases op <;> rfl
  · have hne : (a.val == b.val) = false := beq_eq_false_iff_ne.2 (by omega)
    have hnot : ¬ a.val < b.val := by omega
    rw [if_neg (by omega), if_neg hnot, hne, decide_eq_false hnot, decide_eq_true h]
    cases op <;> rfl

/-- The general operator on two signed integers is `arithmetic::binary`. -/
lemma binary_i64 (F : FloatOps) (T : TypeTable) (op : Binary) (room : Nat → Bool) (fuel : Nat)
    (a b : I64) (s : Store) : binary F T room (fuel + 2) op (.i64 a) (.i64 b) s =
      ((lift (binaryI64 op (.i64 a) (.i64 b) a b)).map some, s) := by
  by_cases hop : isComparison op = true
  · have hgeneral : binary F T room (fuel + 2) op (.i64 a) (.i64 b) s =
        Store.compare F T room (fuel + 2) op (.i64 a) (.i64 b) s := by
      show (if isComparison op = true then _ else _ : M (Option Value)) s = _
      rw [if_pos hop]
    rw [hgeneral, ← compare_orderI64 hop]
    unfold Store.compare
    rw [ErrState.run_bind (ordering_i64 F T op room fuel a b s)]
    dsimp only
    generalize lift (compare op _ _ _) = r
    cases r <;> rfl
  · have hgeneral : binary F T room (fuel + 2) op (.i64 a) (.i64 b) s =
        (do
          let value ← ofExcept (lift (binaryI64 op (.i64 a) (.i64 b) a b))
          pure (some value) : M (Option Value)) s := by
      show (if isComparison op = true then _ else _ : M (Option Value)) s = _
      rw [if_neg hop]
      rfl
    rw [hgeneral]
    generalize lift (binaryI64 op _ _ a b) = r
    cases r <;> rfl

/-- The shortcuts of the interpreter agree with the paths they stand in for: a slot is written and
a frame is left with the outcome, the slots and the store of the code that releases every value
through `Store::release`, whatever the state; and on any two values the fast operator declines or
answers as the general one, which leaves the store as it is. -/
theorem fast_paths_agree :
    (∀ index value, Machine.put index value = Machine.putReleasing index value) ∧
    Machine.leave = Machine.leaveReleasing ∧
    ∀ (F : FloatOps) (T : TypeTable) (room : Nat → Bool) (op : Binary) (a b : Value)
        (s : Store), fastI64 op a b = none ∨
      ∃ r, fastI64 op a b = some r ∧ ∀ fuel, 2 ≤ fuel →
        binary F T room fuel op a b s = ((lift r).map some, s) := by
  refine ⟨Machine.put_eq, Machine.leave_eq, fun F T room op a b s => ?_⟩
  cases a with
  | i64 a =>
      cases b with
      | i64 b =>
          obtain hdeclines | hfast := fastI64_eq op a b
          · exact .inl hdeclines
          · refine .inr ⟨_, hfast, fun fuel hfuel => ?_⟩
            obtain ⟨n, rfl⟩ := Nat.exists_eq_add_of_le' hfuel
            exact binary_i64 F T op room n a b s
      | _ => exact .inl rfl
  | _ => exact .inl rfl

end Exec

end Rnx
