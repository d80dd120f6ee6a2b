import Rnx.Columns.Operands
import Rnx.Columns.Sound

/-!
# One node over a block

`operation` tries vector kernels on all lanes, null ones included, and computes a flagged node
again with the mask.  `Yields` is what its callers see: on the lanes the mask selects it gives the
scalar lanes, and it fails exactly when one of these overflows (`operation_spec`).
-/

namespace Rnx.Columns

open Packed

/-- Lanes and a fault that agree with a lane function on the lanes a mask selects. -/
structure Yields (n : Nat) (mask : Option Word) (f : Nat → Word × Bool) (r : List Word × Bool) :
    Prop where
  length : r.1.length = n
  lane : ∀ j, j < n → selects mask j = true → r.1.getD j 0 = (f j).1
  fault : r.2 = true ↔ ∃ j, j < n ∧ selects mask j = true ∧ (f j).2 = true

/-- Lanes that are zero where the mask selects nothing. -/
def Clears (n : Nat) (mask : Option Word) (lanes : List Word) : Prop :=
  ∀ j, j < n → selects mask j = false → lanes.getD j 0 = 0

section

variable {n : Nat} {mask : Option Word} {f g : Nat → Word × Bool}

lemma Yields.congr {r : List Word × Bool} (h : Yields n mask f r) (hfg : ∀ j, j < n → f j = g j) :
    Yields n mask g r := by
  refine ⟨h.length, fun j hj hs => ?_, h.fault.trans ?_⟩
  · rw [h.lane j hj hs, hfg j hj]
  · constructor
    · rintro ⟨j, hj, hs, hf⟩
      exact ⟨j, hj, hs, by rwa [← hfg j hj]⟩
    · rintro ⟨j, hj, hs, hf⟩
      exact ⟨j, hj, hs, by rwa [hfg j hj]⟩

lemma yields_apply (n : Nat) (mask : Option Word) (f : Nat → Word × Bool) :
    Yields n mask f (apply n mask f) := by
  refine ⟨length_sweep _ _, fun j hj hs => ?_, ?_⟩
  · rw [apply, getD_sweep _ hj, if_pos hs]
  · rw [apply, sweep_fault]
    constructor
    · rintro ⟨j, hj, h⟩
      obtain ⟨hf, hs⟩ := (Bool.and_eq_true _ _).mp h
      exact ⟨j, hj, hs, hf⟩
    · rintro ⟨j, hj, hs, hf⟩
      exact ⟨j, hj, by rw [hf, hs]; rfl⟩

lemma clears_apply (n : Nat) (mask : Option Word) (f : Nat → Word × Bool) :
    Clears n mask (apply n mask f).1 := by
  intro j hj hs
  rw [apply, getD_sweep _ hj, hs]
  rfl

/-- Without a mask the scalar loop is what is asked for. -/
lemma yields_sweep (n : Nat) (f : Nat → Word × Bool) : Yields n none f (sweep n f) := by
  refine ⟨length_sweep _ _, fun j hj _ => getD_sweep _ hj, sweep_fault.trans ?_⟩
  constructor
  · rintro ⟨j, hj, hf⟩
    exact ⟨j, hj, rfl, hf⟩
  · rintro ⟨j, hj, -, hf⟩
    exact ⟨j, hj, hf⟩

/-- An optimistic loop that raised no flag did what is asked for on the selected lanes. -/
lemma yields_unflagged (hfg : ∀ j, j < n → selects mask j = true → g j = f j)
    (hflag : (sweep n g).2 = false) : Yields n mask f ((sweep n g).1, false) := by
  refine ⟨length_sweep _ _, fun j hj hs => ?_, fun h => (nomatch h), ?_⟩
  · rw [getD_sweep _ hj, hfg j hj hs]
  · rintro ⟨j, hj, hs, hf⟩
    exfalso
    rw [sweep_fault.2 ⟨j, hj, by rwa [hfg j hj hs]⟩] at hflag
    cases hflag

end

/-! ## Operands of a kernel -/

lemma overflowingAdd_comm (a b : Word) : overflowingAdd a b = overflowingAdd b a := by
  rw [overflowingAdd, overflowingAdd, saddOverflow_iff, saddOverflow_iff, BitVec.add_comm,
    Int.add_comm]

lemma overflowingMul_comm (a b : Word) : overflowingMul a b = overflowingMul b a := by
  rw [overflowingMul, overflowingMul, smulOverflow_iff, smulOverflow_iff, BitVec.mul_comm,
    Int.mul_comm]

/-- Words or a constant, of the length of the block. -/
def Lanes.Words (x : Lanes) (n : Nat) : Prop :=
  match x with
  | .words v => v.length = n
  | .bits .. => False
  | .constant _ => True

lemma neutral_of_selects {m : Word} {x : List Word} {c : Word} {j : Nat}
    (h : selects (some m) j = true) : Engine.neutral (some m) x c j = x.getD j 0 := if_pos h

section

variable {F : FloatOps} {e : Engine} {op : Binary} {x y : Lanes} {n : Nat} {mask : Option Word}

lemma integerKernel_spec (F : FloatOps) (op : Binary) (hx : x.Words n) (hy : y.Words n)
    (hm : mask.isSome = true → n ≤ 64) :
    ∃ r, integerKernel F op x y n mask = .ok r ∧
      Yields n mask (fun j => binary F op .i64 (x.at j) (y.at j)) r := by
  have hlen : ∀ {z : Lanes}, z.Words n → checkLen z n = true := by
    intro z hz
    cases z with
    | words v => exact decide_eq_true hz
    | bits => exact hz.elim
    | constant c => rfl
  refine ⟨_, ?_, yields_apply n mask _⟩
  have hguard : integerKernel F op x y n mask
      = if ¬(checkLen x n = true ∧ checkLen y n = true) then .error .panic
        else if mask.isSome = true ∧ 64 < n then .error .panic
        else .ok (apply n mask fun i => binary F op .i64 (x.at i) (y.at i)) := by
    cases x with
    | bits => exact hx.elim
    | words => cases y with
      | bits => exact hy.elim
      | words => rfl
      | constant => rfl
    | constant => cases y with
      | bits => exact hy.elim
      | words => rfl
      | constant => rfl
  rw [hguard, if_neg (not_not.2 ⟨hlen hx, hlen hy⟩), if_neg]
  rintro ⟨hs, hn⟩
  have := hm hs
  omega

/-- A kernel tried on all lanes gives the selected lanes unless it raises its flag. -/
lemma optimistic_spec {m : Word} {r : List Word × Bool}
    (hw : isArithmetic op = true → x.Words n ∧ y.Words n)
    (h : optimistic e op x y m = some r) (hflag : r.2 = false) :
    Yields n (some m) (fun j => binary F op .i64 (x.at j) (y.at j)) (r.1, false) := by
  have hconst : ∀ {r : List Word × Bool}, constantOptimistic e op x y m = some r → r.2 = false →
      Yields n (some m) (fun j => binary F op .i64 (x.at j) (y.at j)) (r.1, false) := by
    intro r h hflag
    unfold constantOptimistic at h
    split at h
    · obtain rfl := Option.some.inj h
      rw [Engine.addWordsConstant_eq] at hflag ⊢
      obtain rfl : _ = n := (hw rfl).1
      refine yields_unflagged (fun j _ hs => ?_) hflag
      rw [neutral_of_selects hs]
      rfl
    · obtain rfl := Option.some.inj h
      rw [Engine.addWordsConstant_eq] at hflag ⊢
      obtain rfl : _ = n := (hw rfl).2
      refine yields_unflagged (fun j _ hs => ?_) hflag
      rw [neutral_of_selects hs]
      exact overflowingAdd_comm _ _
    · obtain rfl := Option.some.inj h
      rw [Engine.subConstant_eq] at hflag ⊢
      obtain rfl : _ = n := (hw rfl).1
      refine yields_unflagged (fun j _ hs => ?_) hflag
      rw [neutral_of_selects hs]
      rfl
    · obtain rfl := Option.some.inj h
      rw [Engine.subConstant_eq] at hflag ⊢
      obtain rfl : _ = n := (hw rfl).2
      refine yields_unflagged (fun j _ hs => ?_) hflag
      rw [neutral_of_selects hs]
      rfl
    · cases h
  unfold optimistic at h
  split at h
  · obtain rfl := Option.some.inj h
    rw [Engine.addPair_eq] at hflag ⊢
    obtain rfl : _ = n := (hw rfl).1
    exact yields_unflagged (fun j _ _ => rfl) hflag
  · obtain rfl := Option.some.inj h
    rw [Engine.subPair_eq] at hflag ⊢
    obtain rfl : _ = n := (hw rfl).1
    exact yields_unflagged (fun j _ _ => rfl) hflag
  · split at h
    · obtain rfl := Option.some.inj h
      rw [Engine.mulConstant_eq] at hflag ⊢
      obtain rfl : _ = n := (hw rfl).1
      exact yields_unflagged (fun j _ _ => rfl) hflag
    · exact hconst h hflag
  · split at h
    · obtain rfl := Option.some.inj h
      rw [Engine.mulConstant_eq] at hflag ⊢
      obtain rfl : _ = n := (hw rfl).2
      exact yields_unflagged (fun j _ _ => overflowingMul_comm _ _) hflag
    · exact hconst h hflag
  · exact hconst h hflag

/-- The kernels of a block without nulls compute all lanes. -/
lemma dense_spec {r : List Word × Bool × Bool}
    (hw : isArithmetic op = true → x.Words n ∧ y.Words n)
    (h : dense e op x y = some r) :
    Yields n none (fun j => binary F op .i64 (x.at j) (y.at j)) (r.1, r.2.1) := by
  unfold dense at h
  split at h
  · obtain rfl := Option.some.inj h
    obtain rfl : _ = n := (hw rfl).1
    dsimp only
    rw [Engine.addPair_eq]
    exact yields_sweep _ _
  · obtain rfl := Option.some.inj h
    obtain rfl : _ = n := (hw rfl).1
    exact yields_sweep _ _
  · obtain rfl := Option.some.inj h
    obtain rfl : _ = n := (hw rfl).1
    dsimp only
    rw [Engine.mulConstant_eq]
    exact yields_sweep _ _
  · obtain rfl := Option.some.inj h
    obtain rfl : _ = n := (hw rfl).2
    dsimp only
    rw [Engine.mulConstant_eq]
    exact (yields_sweep _ _).congr fun j _ => overflowingMul_comm _ _
  · cases h

lemma operationScalar_spec (F : FloatOps) {ty : ColumnType} {words : Bool}
    (hw : ty = .i64 → words = true → isArithmetic op = true → x.Words n ∧ y.Words n)
    (hm : mask.isSome = true → n ≤ 64) :
    ∃ r, operationScalar F op ty x y words n mask = .ok r ∧
      Yields n mask (fun j => binary F op ty (x.at j) (y.at j)) (r.1, r.2.1) ∧
      ((ty = .i64 ∧ isArithmetic op = true) ∨ Clears n mask r.1) := by
  unfold operationScalar
  split
  · rename_i h
    obtain ⟨rfl, harith, hwords⟩ := h
    obtain ⟨hx, hy⟩ := hw rfl hwords harith
    obtain ⟨r, hr, hy⟩ := integerKernel_spec F op hx hy hm
    rw [hr]
    exact ⟨_, rfl, hy, .inl ⟨rfl, harith⟩⟩
  · exact ⟨_, rfl, yields_apply n mask _, .inr (clears_apply n mask _)⟩

lemma isArithmetic_of_optimistic {m : Word} {r : List Word × Bool}
    (h : optimistic e op x y m = some r) : isArithmetic op = true := by
  have hconst : ∀ {r}, constantOptimistic e op x y m = some r → isArithmetic op = true := by
    intro r h
    unfold constantOptimistic at h
    split at h <;> first | rfl | cases h
  unfold optimistic at h
  split at h <;> first | rfl | exact hconst h

lemma isArithmetic_of_dense {r : List Word × Bool × Bool} (h : dense e op x y = some r) :
    isArithmetic op = true := by
  unfold dense at h
  split at h <;> first | rfl | cases h

/-- One binary node over a block. -/
theorem operation_spec (F : FloatOps) (e : Engine) {ty : ColumnType} {words : Bool}
    (hw : ty = .i64 → words = true → isArithmetic op = true → x.Words n ∧ y.Words n)
    (hm : mask.isSome = true → n ≤ 64) :
    ∃ r, operation F e op ty x y words n mask = .ok r ∧
      Yields n mask (fun j => binary F op ty (x.at j) (y.at j)) (r.1, r.2.1) ∧
      ((ty = .i64 ∧ isArithmetic op = true) ∨ Clears n mask r.1) := by
  have hscalar := operationScalar_spec F hw hm
  unfold operation
  cases mask with
  | some m =>
    dsimp only
    split
    · rename_i h
      obtain ⟨rfl, hwords, -⟩ := h
      split
      · rename_i lanes flagged hopt
        have harith := isArithmetic_of_optimistic hopt
        split
        · -- The flag may come from a null lane: only the rescan decides.
          obtain ⟨hx, hy⟩ := hw rfl hwords harith
          obtain ⟨r, hr, hy⟩ := integerKernel_spec F op hx hy hm
          rw [hr]
          exact ⟨_, rfl, hy, .inl ⟨rfl, harith⟩⟩
        · rename_i hflag
          refine ⟨_, rfl, optimistic_spec (hw rfl hwords) hopt (by simpa using hflag), ?_⟩
          exact .inl ⟨rfl, harith⟩
      · exact hscalar
    · exact hscalar
  | none =>
    dsimp only
    split
    · rename_i h
      obtain ⟨rfl, hwords⟩ := h
      split
      · rename_i r hdense
        exact ⟨r, rfl, dense_spec (hw rfl hwords) hdense,
          .inl ⟨rfl, isArithmetic_of_dense hdense⟩⟩
      · exact hscalar
    · exact hscalar

end

end Rnx.Columns
