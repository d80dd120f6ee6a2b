import Rnx.Exec.Windows
import Rnx.Lib.Dataflow

/-!
# Types of a function's slots

The inference of `function_types_in` (`region/mod.rs`): the tags the slots of a function have at
each instruction, found forward from its entry, where parameters may hold anything and every other
slot a unit.  It gives up past a number of cells and past a number of transfers; `factor` sets the
latter.  The buffers it charges to a budget are left out: a refused charge ends it without a table.
-/

namespace Rnx

namespace Region

/-! ## The lattice -/

/-- `FTy`: `bottom < {unit, bool, i64} < top`. -/
inductive FTy
  | bottom | unit | bool | i64 | top
deriving DecidableEq, Repr

namespace FTy

/-- Least upper bound. -/
def join : FTy → FTy → FTy
  | .bottom, x => x
  | x, .bottom => x
  | a, b => if a = b then a else .top

/-- The values of a type. -/
def holds : FTy → Value → Bool
  | .unit, .unit => true
  | .bool, .bool _ => true
  | .i64, .i64 _ => true
  | .top, _ => true
  | _, _ => false

/-- How far a type is above the bottom. -/
def rank : FTy → Nat
  | .bottom => 0
  | .unit | .bool | .i64 => 1
  | .top => 2

variable {a b : FTy} {v : Value}

lemma holds_join_left (h : a.holds v = true) : (a.join b).holds v = true := by
  cases a <;> cases b <;> first | exact h | rfl | cases h

lemma holds_join_right (h : b.holds v = true) : (a.join b).holds v = true := by
  cases a <;> cases b <;> first | exact h | rfl | cases h

lemma rank_le (a : FTy) : a.rank ≤ 2 := by
  cases a <;> decide

lemma rank_le_join (a b : FTy) : a.rank ≤ (a.join b).rank := by
  cases a <;> cases b <;> decide

lemma rank_lt_join (h : a.join b ≠ a) : a.rank < (a.join b).rank := by
  revert h
  cases a <;> cases b <;> decide

/-- The type of a literal. -/
def literal : Value → FTy
  | .unit => .unit
  | .bool _ => .bool
  | .i64 _ => .i64
  | _ => .top

lemma holds_literal (v : Value) : (literal v).holds v = true := by
  cases v <;> rfl

lemma holds_top (v : Value) : top.holds v = true := by
  cases v <;> rfl

lemma eq_i64 (h : i64.holds v = true) : ∃ n, v = .i64 n := by
  cases v with
  | i64 n => exact ⟨n, rfl⟩
  | unit | bool | u64 | f64 | char | ordering | heap | function | type => cases h

lemma eq_bool (h : bool.holds v = true) : ∃ b, v = .bool b := by
  cases v with
  | bool b => exact ⟨b, rfl⟩
  | unit | i64 | u64 | f64 | char | ordering | heap | function | type => cases h

end FTy

/-! ## The transfer -/

/-- A type for each of the slots. -/
abbrev Row (n : Nat) := Fin n → FTy

/-- `get`: the type of a slot. -/
def Row.get {n : Nat} (s : Row n) (k : Nat) : Except Error FTy :=
  if h : k < n then .ok (s ⟨k, h⟩) else .error invalid

/-- Whether both operands are integers; the right one is only read behind an integer. -/
def Row.integers {n : Nat} (s : Row n) (lhs rhs : Nat) : Except Error Bool := do
  let left ← s.get lhs
  if left = .i64 then (s.get rhs).map (decide <| · = .i64) else .ok false

/-- `ARITH`. -/
def arith : List Binary := [.add, .sub, .mul, .div, .rem]

/-- `COMPARE`. -/
def comparisons : List Binary := [.eq, .ne, .lt, .le, .gt, .ge]

/-- The type of the result of a binary operator, whose operands are both integers or not. -/
def operated (op : Binary) (both : Bool) : FTy :=
  if both && arith.contains op then .i64
  else if both && comparisons.contains op then .bool
  else .top

/-- The slot an operation writes, and the type it leaves there. -/
def written {n : Nat} (s : Row n) : Op → Except Error (Option (Nat × FTy))
  | .literal out value => .ok (some (out, .literal value))
  | .binary out op lhs rhs | .assignBinary out op lhs rhs => do
      let both ← s.integers lhs rhs
      .ok (some (out, operated op both))
  | .copy out value => do
      let v ← s.get value
      .ok (some (out, v))
  | .release value => .ok (some (value, .unit))
  | .is out _ _ _ => .ok (some (out, .bool))
  | .cast out _ tag => .ok (some (out, if tag = .i64 then .i64 else .top))
  | .unary out _ value => do
      let v ← s.get value
      .ok (some (out, if v = .i64 ∨ v = .bool then v else .top))
  | .template out _ _ | .tupleField out _ _ | .tupleFieldGetMut out _ _ | .record out _ _ _
  | .field out _ _ | .fieldGetMut out _ _ | .variant out _ _ _ | .tryValue out _
  | .callValue out _ _ _ | .range out _ _ | .iterStart out _ | .iterNext out _ _ | .string out _
  | .stringFrom out _ | .clone out _ _ | .call out _ _ _ | .list out _ _ _ | .get out _ _
  | .len out _ => .ok (some (out, .top))
  | .print _ | .panic _ | .setTupleField _ _ _ | .tupleFieldSetMut _ _ _ | .setField _ _ _
  | .fieldSetMut _ _ _ | .jump _ | .branch _ _ _ | .returnValue _ | .set _ _ _ | .push _ _
  | .drop _ => .ok none

/-- `function_transfer`. -/
def functionTransfer {n : Nat} (op : Op) (s : Row n) : Except Error (Row n) := do
  match ← written s op with
  | none => .ok s
  | some (out, ty) =>
      if h : out < n then .ok (Function.update s ⟨out, h⟩ ty) else .error invalid

/-! ## The inference -/

/-- `MAX_FUNCTION_INFERENCE_CELLS`. -/
def maxFunctionInferenceCells : Nat := 2 ^ 22

/-- `TRANSFER_FACTOR`. -/
def transferFactor : Nat := 8

/-- `cutoff`: `factor * a * max(b, 1)`, or no cutoff when that overflows. -/
def cutoff (factor a b : Nat) : Nat := min (factor * a * max b 1) (2 ^ 64 - 1)

/-- The equations of a function. -/
def functionFlow (f : Rnx.Function) : Dataflow.Flow Nat (Row f.slots) Error where
  next := f.successors
  transfer pc s := do
    let op ← f.operation pc
    functionTransfer op s
  join s t k := (s k).join (t k)

/-- The row of the entry. -/
def entryRow (f : Rnx.Function) : Row f.slots := fun k => if k < f.parameters then .top else .unit

/-- The rows the inference starts with. -/
def startRows (f : Rnx.Function) : Nat → Row f.slots :=
  Function.update (fun _ _ => .bottom) 0 (entryRow f)

/-- `function_types_in`: the types of the slots at every instruction, unless it gives up. -/
def functionTypes (f : Rnx.Function) (factor : Nat) : Except Error (Option (Nat → Row f.slots)) :=
  let len := f.code.length
  if maxFunctionInferenceCells < len * f.slots ∨ len = 0 then .ok none
  else (functionFlow f).solution (cutoff factor len f.slots) 0 (startRows f)

/-! ## What the rows describe -/

/-- The slots have the types of the row. -/
def Describes {n : Nat} (s : Row n) (slots : List Value) : Prop :=
  ∀ k : Fin n, ∃ v, slots[k.val]? = some v ∧ (s k).holds v = true

section Transfer

open Exec (Primitive fastI64)

variable {n : Nat} {s s' : Row n} {F : FloatOps} {C : Exec.CastOps} {a b : Exec.Activation}
  {reply : Exec.Reply} {op : Op} {effect : Exec.Effect} {out k lhs rhs : Nat} {v : Value}
  {w : Option (Nat × FTy)} {ty : FTy} {binary : Binary}

lemma holds_integer {r : Primitive I64} (h : (r.map Value.i64).toOption = some v) :
    FTy.i64.holds v = true := by
  cases r with
  | error e => cases h
  | ok m =>
    obtain rfl := Option.some.inj h
    rfl

lemma holds_divided {p : Prop} [Decidable p] {e : Exec.PrimitiveError} {r : Primitive I64}
    (h : (if p then .error e else r.map Value.i64 : Primitive Value).toOption = some v) :
    FTy.i64.holds v = true := by
  split_ifs at h
  · cases h
  · exact holds_integer h

/-- Two integers that are added or compared at once give what the operator says. -/
lemma holds_fastI64 {x y : I64} {result : Primitive Value}
    (h : fastI64 binary (.i64 x) (.i64 y) = some result) (hv : result.toOption = some v) :
    (operated binary true).holds v = true := by
  cases binary with
  | add | sub | mul =>
    obtain rfl := Option.some.inj h
    exact holds_integer hv
  | div | rem =>
    obtain rfl := Option.some.inj h
    exact holds_divided hv
  | eq | ne | lt | le | gt | ge =>
    obtain rfl := Option.some.inj h
    obtain rfl := Option.some.inj hv
    rfl
  | bitAnd | bitOr | bitXor | shl | shr => cases h

lemma Describes.get (h : Describes s a.slots) (hty : s.get k = .ok ty) (hv : a.get k = some v) :
    ty.holds v = true := by
  unfold Row.get at hty
  split_ifs at hty with hk
  obtain ⟨v', hv', hholds⟩ := h ⟨k, hk⟩
  obtain rfl := Except.ok.inj hty
  obtain rfl := Option.some.inj (hv.symm.trans hv')
  exact hholds

lemma integers_eq_ok (h : s.integers lhs rhs = .ok true) :
    s.get lhs = .ok .i64 ∧ s.get rhs = .ok .i64 := by
  obtain ⟨left, hleft, h⟩ := Except.bind_eq_ok.1 h
  split_ifs at h with hi64
  · subst hi64
    rcases hright : s.get rhs with e | right
    · rw [hright] at h
      cases h
    · rw [hright] at h
      have heq := Except.ok.inj h
      rw [decide_eq_true_eq] at heq
      rw [heq]
      exact ⟨hleft, rfl⟩
  · cases Except.ok.inj h

/-- The operators that the fast path leaves to the store. -/
lemma operated_slow {x y : I64} (h : fastI64 binary (.i64 x) (.i64 y) = none) :
    operated binary true = .top := by
  cases binary with
  | add | sub | mul | div | rem | eq | ne | lt | le | gt | ge => cases h
  | bitAnd | bitOr | bitXor | shl | shr => rfl

/-- The operands of the operators that the inference knows the type of are integers. -/
lemma holds_operated (h : Describes s a.slots)
    (hw : written s (.binary out binary lhs rhs) = .ok w)
    (hv : a.operated binary lhs rhs reply = some v) :
    ∃ ty, w = some (out, ty) ∧ ty.holds v = true := by
  obtain ⟨both, hboth, hw⟩ := Except.bind_eq_ok.1 hw
  obtain rfl := Except.ok.inj hw
  refine ⟨_, rfl, ?_⟩
  cases both with
  | false => rfl
  | true =>
    obtain ⟨hleft, hright⟩ := integers_eq_ok hboth
    unfold Exec.Activation.operated at hv
    split at hv
    · rename_i x y hx hy
      obtain ⟨m, rfl⟩ := FTy.eq_i64 (h.get hleft hx)
      obtain ⟨m', rfl⟩ := FTy.eq_i64 (h.get hright hy)
      split at hv
      · rename_i result hfast
        exact holds_fastI64 hfast hv
      · rename_i hnone
        rw [operated_slow hnone]
        exact FTy.holds_top v
    · cases hv

lemma written_top {o : Option Value} {out' : Nat}
    (h : o.map (Exec.Effect.write out') = some (.write out v))
    (hw : (Except.ok (some (out', FTy.top)) : Except Error (Option (Nat × FTy))) = .ok w) :
    ∃ ty, w = some (out, ty) ∧ ty.holds v = true := by
  obtain ⟨v', -, heq⟩ := Option.map_eq_some_iff.1 h
  obtain ⟨rfl, rfl⟩ := Exec.Effect.write.inj heq
  exact ⟨.top, (Except.ok.inj hw).symm, FTy.holds_top v'⟩

/-- The unary operators keep the integers and the Booleans. -/
lemma holds_unary {unary : Unary} {operand : Value} (hty : ty.holds operand = true)
    (h : (Exec.arithmeticUnary F unary operand).toOption = some v) :
    (if ty = .i64 ∨ ty = .bool then ty else .top).holds v = true := by
  split_ifs with hknown
  · obtain rfl | rfl := hknown
    · obtain ⟨m, rfl⟩ := FTy.eq_i64 hty
      cases unary with
      | neg => exact holds_integer h
      | not =>
        obtain rfl := Option.some.inj h
        rfl
    · obtain ⟨m, rfl⟩ := FTy.eq_bool hty
      cases unary with
      | neg => cases h
      | not =>
        obtain rfl := Option.some.inj h
        rfl
  · exact FTy.holds_top v

lemma holds_cast {C : Exec.CastOps} {operand : Value} {tag : Rnx.Ty}
    (h : (Exec.cast C operand tag).toOption = some v) :
    (if tag = .i64 then FTy.i64 else .top).holds v = true := by
  split_ifs with htag
  · subst htag
    rcases hc : Exec.cast C operand .i64 with e | v'
    · rw [hc] at h
      cases h
    · rw [hc] at h
      obtain ⟨m, rfl⟩ := Exec.cast_i64 hc
      obtain rfl := Option.some.inj h
      rfl
  · exact FTy.holds_top v

lemma holds_tested {value : Nat} {tag : Rnx.Ty} {negate : Bool}
    (h : a.tested value tag negate reply = some v) : FTy.bool.holds v = true := by
  unfold Exec.Activation.tested at h
  split at h
  · obtain rfl := Option.some.inj h
    rfl
  · obtain rfl := Option.some.inj h
    rfl
  · obtain rfl := Option.some.inj h
    rfl
  · cases h

/-- What an instruction writes has the type its transfer leaves. -/
lemma written_holds (h : Describes s a.slots)
    (heffect : a.effect F C reply op = some (.write out v)) (hw : written s op = .ok w) :
    ∃ ty, w = some (out, ty) ∧ ty.holds v = true := by
  cases op with
  | template | tupleField | tupleFieldGetMut | record | field | fieldGetMut | variant | tryValue
  | callValue | range | iterStart | string | stringFrom | clone | call | list | get | len =>
    exact written_top heffect hw
  | print | setTupleField | tupleFieldSetMut | setField | fieldSetMut | set | push | drop =>
    obtain ⟨_, -, heq⟩ := Option.map_eq_some_iff.1 heffect
    cases heq
  | panic | returnValue => cases heffect
  | jump => cases Option.some.inj heffect
  | branch condition yes no =>
    simp only [Exec.Activation.effect] at heffect
    split at heffect
    · cases Option.some.inj heffect
    · cases heffect
  | literal out' value =>
    obtain ⟨rfl, rfl⟩ := Exec.Effect.write.inj (Option.some.inj heffect)
    exact ⟨_, (Except.ok.inj hw).symm, FTy.holds_literal value⟩
  | release value =>
    obtain ⟨rfl, rfl⟩ := Exec.Effect.write.inj (Option.some.inj heffect)
    exact ⟨_, (Except.ok.inj hw).symm, rfl⟩
  | copy out' value =>
    obtain ⟨v', hv, heq⟩ := Option.map_eq_some_iff.1 heffect
    obtain ⟨rfl, rfl⟩ := Exec.Effect.write.inj heq
    obtain ⟨ty, hty, hw⟩ := Except.bind_eq_ok.1 hw
    exact ⟨ty, (Except.ok.inj hw).symm, h.get hty hv⟩
  | unary out' op value =>
    obtain ⟨v', hv, heq⟩ := Option.map_eq_some_iff.1 heffect
    obtain ⟨rfl, rfl⟩ := Exec.Effect.write.inj heq
    obtain ⟨operand, hoperand, hresult⟩ := Option.bind_eq_some_iff.1 hv
    obtain ⟨ty, hty, hw⟩ := Except.bind_eq_ok.1 hw
    exact ⟨_, (Except.ok.inj hw).symm, holds_unary (h.get hty hoperand) hresult⟩
  | binary out' op lhs rhs | assignBinary out' op lhs rhs =>
    obtain ⟨v', hv, heq⟩ := Option.map_eq_some_iff.1 heffect
    obtain ⟨rfl, rfl⟩ := Exec.Effect.write.inj heq
    exact holds_operated h hw hv
  | cast out' value tag =>
    obtain ⟨v', hv, heq⟩ := Option.map_eq_some_iff.1 heffect
    obtain ⟨rfl, rfl⟩ := Exec.Effect.write.inj heq
    obtain ⟨operand, -, hresult⟩ := Option.bind_eq_some_iff.1 hv
    exact ⟨_, (Except.ok.inj hw).symm, holds_cast hresult⟩
  | is out' value tag negate =>
    obtain ⟨v', hv, heq⟩ := Option.map_eq_some_iff.1 heffect
    obtain ⟨rfl, rfl⟩ := Exec.Effect.write.inj heq
    exact ⟨_, (Except.ok.inj hw).symm, holds_tested hv⟩
  | iterNext out' iterator done =>
    simp only [Exec.Activation.effect] at heffect
    split at heffect
    · obtain ⟨rfl, rfl⟩ := Exec.Effect.write.inj (Option.some.inj heffect)
      exact ⟨.top, (Except.ok.inj hw).symm, FTy.holds_top _⟩
    · cases Option.some.inj heffect
    · cases heffect

/-- An instruction that writes nothing has a transfer that leaves nothing new known. -/
lemma written_nothing (heffect : a.effect F C reply op = some effect)
    (hnone : ∀ out v, effect ≠ .write out v) (hw : written s op = .ok w) :
    ∀ out ty, w = some (out, ty) → ty = .top := by
  intro out ty hsome
  subst hsome
  cases op with
  | template | tupleField | tupleFieldGetMut | record | field | fieldGetMut | variant | tryValue
  | callValue | range | iterStart | string | stringFrom | clone | call | list | get | len | copy
  | unary | binary | assignBinary | cast | is =>
    obtain ⟨v, -, heq⟩ := Option.map_eq_some_iff.1 heffect
    exact absurd heq.symm (hnone _ v)
  | literal | release => exact absurd (Option.some.inj heffect).symm (hnone _ _)
  | print | setTupleField | tupleFieldSetMut | setField | fieldSetMut | set | push | drop
  | panic | returnValue | jump | branch => cases Except.ok.inj hw
  | iterNext => exact (Prod.mk.inj (Option.some.inj (Except.ok.inj hw))).2.symm

lemma Describes.update {slots : List Value} (h : Describes s slots) (hout : out < n)
    (hlt : out < slots.length) (hv : ty.holds v = true) :
    Describes (Function.update s ⟨out, hout⟩ ty) (slots.set out v) := by
  intro k
  by_cases hk : k = ⟨out, hout⟩
  · subst hk
    refine ⟨v, List.getElem?_set_self hlt, ?_⟩
    rw [Function.update_self]
    exact hv
  · obtain ⟨v', hv', hholds⟩ := h k
    refine ⟨v', ?_, ?_⟩
    · rw [List.getElem?_set_ne fun heq => hk (Fin.ext heq.symm)]
      exact hv'
    · rw [Function.update_of_ne hk]
      exact hholds

lemma Describes.forget {slots : List Value} (h : Describes s slots) (hout : out < n) :
    Describes (Function.update s ⟨out, hout⟩ .top) slots := by
  intro k
  obtain ⟨v, hv, hholds⟩ := h k
  refine ⟨v, hv, ?_⟩
  by_cases hk : k = ⟨out, hout⟩
  · rw [hk, Function.update_self]
    exact FTy.holds_top v
  · rw [Function.update_of_ne hk]
    exact hholds

/-- The transfer of an operation describes the slots its instruction leaves. -/
lemma functionTransfer_describes (h : Describes s a.slots)
    (heffect : a.effect F C reply op = some effect) (happly : a.apply effect = some b)
    (ht : functionTransfer op s = .ok s') : Describes s' b.slots := by
  obtain ⟨w, hw, ht⟩ := Except.bind_eq_ok.1 ht
  have hkept : (∀ out v, effect ≠ .write out v) → b.slots = a.slots → Describes s' b.slots := by
    intro hnone hslots
    rw [hslots]
    rcases w with _ | ⟨out, ty⟩
    · obtain rfl := Except.ok.inj ht
      exact h
    · obtain rfl := written_nothing heffect hnone hw out ty rfl
      simp only at ht
      split_ifs at ht with hout
      obtain rfl := Except.ok.inj ht
      exact h.forget hout
  cases effect with
  | write out v =>
    obtain ⟨ty, rfl, hholds⟩ := written_holds h heffect hw
    simp only [Exec.Activation.apply] at happly
    split_ifs at happly with hlt
    obtain rfl := Option.some.inj happly
    simp only at ht
    split_ifs at ht with hout
    obtain rfl := Except.ok.inj ht
    exact h.update hout hlt hholds
  | goto pc =>
    obtain rfl := Option.some.inj happly
    exact hkept (fun _ _ => Exec.Effect.noConfusion) rfl
  | next =>
    obtain rfl := Option.some.inj happly
    exact hkept (fun _ _ => Exec.Effect.noConfusion) rfl

end Transfer

/-! ## Soundness -/

variable {f : Rnx.Function} {factor : Nat} {types : Nat → Row f.slots}

lemma describes_join (f : Rnx.Function) :
    Dataflow.Describes (functionFlow f) (Describes (n := f.slots)) where
  left s t slots h k := by
    obtain ⟨v, hv, hholds⟩ := h k
    exact ⟨v, hv, FTy.holds_join_left hholds⟩
  right s t slots h k := by
    obtain ⟨v, hv, hholds⟩ := h k
    exact ⟨v, hv, FTy.holds_join_right hholds⟩

/-- The equations of a function account for its steps. -/
lemma accounts (F : FloatOps) (C : Exec.CastOps) (hf : f.prepareCache = .ok f) :
    Dataflow.Accounts (functionFlow f) Describes fun x y =>
      ∃ reply, (Exec.Activation.mk x.1 x.2).step F C f reply = some ⟨y.1, y.2⟩ := by
  rintro pc slots pc' slots' s out targets ⟨reply, hstep⟩ h hout htargets
  obtain ⟨op, effect, hop, heffect, happly⟩ := Exec.Activation.step_operation hf hstep
  have htargets : f.successors pc = .ok targets := htargets
  obtain ⟨targets', ht', hmem⟩ := Exec.Activation.step_edge hf ⟨targets, htargets⟩ hstep
  obtain rfl := Except.ok.inj (htargets.symm.trans ht')
  obtain ⟨op', hop', hout⟩ := Except.bind_eq_ok.1 hout
  obtain rfl := Except.ok.inj (hop.symm.trans hop')
  exact ⟨hmem, functionTransfer_describes h heffect happly hout⟩

/-- The row of the entry describes the frame of a call. -/
lemma describes_enter {args : List Value} {a : Exec.Activation}
    (h : Exec.Activation.enter f args = some a) : a.pc = 0 ∧ Describes (entryRow f) a.slots := by
  unfold Exec.Activation.enter at h
  split_ifs at h with hargs
  obtain rfl := Option.some.inj h
  refine ⟨rfl, fun k => ?_⟩
  unfold entryRow
  by_cases hk : k.val < f.parameters
  · rw [← hargs.1] at hk
    refine ⟨args[k.val], ?_, ?_⟩
    · rw [List.getElem?_append_left hk, List.getElem?_eq_getElem hk]
    · rw [if_pos (hargs.1 ▸ hk)]
      exact FTy.holds_top _
  · refine ⟨.unit, ?_, ?_⟩
    · rw [List.getElem?_append_right (by omega), List.getElem?_replicate, if_pos (by omega)]
    · rw [if_neg hk]
      rfl

/-- Every activation of a function has the types inferred where it stands. -/
lemma describes_reachable {F : FloatOps} {C : Exec.CastOps} {a : Exec.Activation}
    (hf : f.prepareCache = .ok f) (htypes : functionTypes f factor = .ok (some types))
    (ha : (Exec.activations F C f).Reachable a) : Describes (types a.pc) a.slots := by
  obtain ⟨start, l, ⟨args, henter⟩, hrun⟩ := ha
  obtain ⟨hpc, hdescribed⟩ := describes_enter henter
  unfold functionTypes at htypes
  simp only at htypes
  split_ifs at htypes with hgiven
  · cases Except.ok.inj htypes
  have hsolution := Dataflow.solution_spec (describes_join f) htypes
  have hreached : Relation.ReflTransGen (fun x y : Nat × List Value =>
      ∃ reply, (Exec.Activation.mk x.1 x.2).step F C f reply = some ⟨y.1, y.2⟩)
      (start.pc, start.slots) (a.pc, a.slots) := by
    refine hrun.invariant (P := fun b => Relation.ReflTransGen _ (start.pc, start.slots)
      (b.pc, b.slots)) (fun b reply c before hb hnext => hb.tail ?_) .refl
    exact ⟨reply, (Exec.Activation.next_eq_some hnext).2⟩
  rw [hpc] at hreached
  refine hsolution.run (accounts F C hf) ?_ hreached
  rw [startRows, Function.update_self]
  exact hdescribed

/-- **Type inference is sound**: whenever an invocation of sealed code is about to execute an
instruction of a function, whatever it was called with and whatever the store and its callees
answered, each slot of the window holds a value of the type inferred for it there. -/
theorem functionTypes_sound (S : Exec.Setting) (env : Callees) (hS : S.Sealed env) (fuel : Nat)
    (e : Exec.Executor) (he : (Exec.invocation S fuel).Reachable e) (frame : Exec.Executor.Frame)
    (frames : List Exec.Executor.Frame) (hframes : e.frames = frame :: frames) (f : Rnx.Function)
    (hf : S.functions[frame.function]? = some f) (factor : Nat) (types : Nat → Row f.slots)
    (htypes : functionTypes f factor = .ok (some types)) :
    ∀ k : Fin f.slots, ∃ v, e.slots[frame.base + k.val]? = some v ∧
      (types frame.pc k).holds v = true := by
  intro k
  obtain ⟨-, hrefines⟩ := Exec.reachable_refines hS he
  rw [hframes] at hrefines
  cases hrefines with
  | cons hf' hreach hrest =>
    obtain rfl := Option.some.inj (hf.symm.trans hf')
    obtain ⟨v, hv, hholds⟩ := describes_reachable (hS.runs hf).1.cache htypes hreach k
    simp only at hv hholds
    rw [List.getElem?_drop] at hv
    exact ⟨v, hv, hholds⟩

open Exec.Executor (doubleSealed doubleEnv doubleSetting doubleSetting_sealed) in
/-- At its entry the slots of a function without parameters are units. -/
theorem functionTypes_sound_double :
    ∃ types, functionTypes doubleSealed transferFactor = .ok (some types) ∧
      ∀ k : Fin 2, ∃ v, [Value.unit, Value.unit][0 + k.val]? = some v ∧
        (types 0 k).holds v = true :=
  ⟨_, rfl, functionTypes_sound doubleSetting doubleEnv doubleSetting_sealed 9
    ⟨[⟨0, 0, 0, none⟩], [.unit, .unit], 9, false⟩ (.of_start ⟨0, [], rfl⟩) ⟨0, 0, 0, none⟩ [] rfl
    doubleSealed rfl transferFactor _ rfl⟩

/-! ## Ending -/

lemma Row.get_returns {n k : Nat} (s : Row n) (hk : k < n) : ∃ ty, s.get k = .ok ty :=
  ⟨_, dif_pos hk⟩

lemma integers_returns {n lhs rhs : Nat} (s : Row n) (hl : lhs < n) (hr : rhs < n) :
    ∃ both, s.integers lhs rhs = .ok both := by
  obtain ⟨left, hleft⟩ := s.get_returns hl
  obtain ⟨right, hright⟩ := s.get_returns hr
  by_cases hi64 : left = .i64
  · refine ⟨decide (right = .i64), Except.bind_eq_ok.2 ⟨left, hleft, ?_⟩⟩
    rw [if_pos hi64, hright]
    rfl
  · exact ⟨false, Except.bind_eq_ok.2 ⟨left, hleft, if_neg hi64⟩⟩

/-- The slots an operation reads and the slot it writes are among those it names. -/
lemma written_returns {n : Nat} (s : Row n) {op : Op} (hnamed : ∀ k ∈ op.named, k < n) :
    ∃ w, written s op = .ok w ∧ ∀ out ty, w = some (out, ty) → out < n := by
  have hout : ∀ {out : Nat} {ty : FTy}, out < n → ∀ out' ty', some (out, ty) = some (out', ty') →
      out' < n := by
    intro out ty hlt out' ty' heq
    exact (Prod.mk.inj (Option.some.inj heq)).1 ▸ hlt
  cases op with
  | template | tupleField | tupleFieldGetMut | record | field | fieldGetMut | variant | tryValue
  | callValue | range | iterStart | iterNext | string | stringFrom | clone | call | list | get | len
  | literal | is | cast | release => exact ⟨_, rfl, hout (hnamed _ List.mem_cons_self)⟩
  | print | panic | setTupleField | tupleFieldSetMut | setField | fieldSetMut | jump | branch
  | returnValue | set | push | drop => exact ⟨none, rfl, fun _ _ h => nomatch h⟩
  | copy out value | unary out _ value =>
    obtain ⟨ty, hty⟩ := s.get_returns (hnamed value (List.mem_cons_of_mem _ List.mem_cons_self))
    exact ⟨_, Except.bind_eq_ok.2 ⟨ty, hty, rfl⟩, hout (hnamed out List.mem_cons_self)⟩
  | binary out op lhs rhs | assignBinary out op lhs rhs =>
    obtain ⟨both, hboth⟩ := integers_returns s
      (hnamed lhs (List.mem_cons_of_mem _ List.mem_cons_self))
      (hnamed rhs (List.mem_cons_of_mem _ (List.mem_cons_of_mem _ List.mem_cons_self)))
    exact ⟨_, Except.bind_eq_ok.2 ⟨both, hboth, rfl⟩, hout (hnamed out List.mem_cons_self)⟩

lemma functionTransfer_returns {n : Nat} (s : Row n) {op : Op} (hnamed : ∀ k ∈ op.named, k < n) :
    ∃ s', functionTransfer op s = .ok s' := by
  obtain ⟨w, hw, hlt⟩ := written_returns s hnamed
  rcases w with _ | ⟨out, ty⟩
  · exact ⟨s, Except.bind_eq_ok.2 ⟨none, hw, rfl⟩⟩
  · exact ⟨_, Except.bind_eq_ok.2 ⟨_, hw, dif_pos (hlt out ty rfl)⟩⟩

/-- How far a row is above the bottom. -/
def rowRank {n : Nat} (s : Row n) : Nat := Finset.univ.sum fun k => (s k).rank

lemma ranked_functionFlow (f : Rnx.Function) :
    Dataflow.Ranked (functionFlow f) rowRank (2 * f.slots) where
  le s := by
    have hle : rowRank s ≤ Finset.univ.sum fun _ : Fin f.slots => 2 :=
      Finset.sum_le_sum fun k _ => FTy.rank_le (s k)
    rw [Finset.sum_const, Finset.card_univ, Fintype.card_fin] at hle
    exact hle.trans (Nat.le_of_eq (Nat.mul_comm f.slots 2))
  keeps s t := Finset.sum_le_sum fun k _ => FTy.rank_le_join (s k) (t k)
  raises s t hne := by
    have hat : ∃ k, (s k).join (t k) ≠ s k := by
      by_contra hnone
      exact hne (funext fun k => not_not.1 fun hk => hnone ⟨k, hk⟩)
    obtain ⟨k, hk⟩ := hat
    exact Finset.sum_lt_sum (fun k _ => FTy.rank_le_join (s k) (t k))
      ⟨k, Finset.mem_univ k, FTy.rank_lt_join hk⟩

/-- What the inference may still have to do when it starts. -/
lemma pending_start (f : Rnx.Function) (hcode : 0 < f.code.length) :
    Dataflow.pending rowRank (2 * f.slots) (Finset.range f.code.length)
      ⟨startRows f, {0}, [0]⟩ ≤ f.code.length * (2 * f.slots + 1) := by
  have hzero : 0 ∈ Finset.range f.code.length := Finset.mem_range.2 hcode
  have hentry : Dataflow.slack rowRank (2 * f.slots) ⟨startRows f, {0}, [0]⟩ 0 ≤ 2 * f.slots := by
    unfold Dataflow.slack
    rw [if_pos (Finset.mem_singleton_self 0)]
    omega
  have hrest : ((Finset.range f.code.length).erase 0).sum
      (Dataflow.slack rowRank (2 * f.slots) ⟨startRows f, {0}, [0]⟩)
      ≤ (f.code.length - 1) * (2 * f.slots + 1) := by
    have hle := Finset.sum_le_card_nsmul ((Finset.range f.code.length).erase 0)
      (Dataflow.slack rowRank (2 * f.slots) ⟨startRows f, {0}, [0]⟩) (2 * f.slots + 1)
      fun a _ => by
        unfold Dataflow.slack
        split_ifs <;> omega
    rwa [Finset.card_erase_of_mem hzero, Finset.card_range] at hle
  unfold Dataflow.pending
  rw [← Finset.add_sum_erase _ _ hzero]
  obtain ⟨m, hm⟩ := Nat.exists_eq_succ_of_ne_zero (Nat.ne_of_gt hcode)
  rw [hm, Nat.succ_mul m]
  rw [hm, Nat.succ_sub_one] at hrest
  exact (Nat.add_le_add_right (Nat.add_le_add hentry hrest) 1).trans (by omega)

/-- With three transfers for each cell the cutoff is out of reach. -/
lemma le_cutoff {factor len slots : Nat} (hslots : 0 < slots)
    (hcells : len * slots ≤ maxFunctionInferenceCells) (hfactor : 3 ≤ factor) :
    len * (2 * slots + 1) ≤ cutoff factor len slots := by
  have hthree : len * (2 * slots + 1) ≤ 3 * (len * slots) :=
    calc len * (2 * slots + 1) ≤ len * (3 * slots) := Nat.mul_le_mul_left len (by omega)
      _ = 3 * (len * slots) := Nat.mul_left_comm len 3 slots
  unfold cutoff
  rw [max_eq_left hslots, Nat.mul_assoc]
  refine le_min (hthree.trans (Nat.mul_le_mul_right _ hfactor)) ?_
  unfold maxFunctionInferenceCells at hcells
  omega

/-- **Type inference ends**: on a validated function it returns, and from three transfers for each
cell on it returns a table unless there are too many cells, so the cutoff that `transferFactor` sets
is never met. -/
theorem functionTypes_ends (f : Rnx.Function) (env : Callees) (hf : f.Valid env)
    (hslots : 0 < f.slots) (factor : Nat) :
    ∃ r, functionTypes f factor = .ok r ∧
      (3 ≤ factor → (r = none ↔ maxFunctionInferenceCells < f.code.length * f.slots ∨
        f.code.length = 0)) := by
  unfold functionTypes
  simp only
  split_ifs with hgiven
  · exact ⟨none, rfl, fun _ => iff_of_true rfl hgiven⟩
  obtain ⟨hcells, hcode⟩ := not_or.1 hgiven
  have hwork : ∀ a ∈ [0], a ∈ Finset.range f.code.length := by
    intro a ha
    rw [List.mem_singleton.1 ha]
    exact Finset.mem_range.2 (Nat.pos_of_ne_zero hcode)
  have hnext : ∀ a ∈ Finset.range f.code.length, ∃ targets,
      (functionFlow f).next a = .ok targets ∧ ∀ q ∈ targets, q ∈ Finset.range f.code.length := by
    intro a ha
    obtain ⟨targets, ht⟩ := hf.targets a (Finset.mem_range.1 ha)
    exact ⟨targets, ht, fun q hq => Finset.mem_range.2 (Function.edge_lt ⟨targets, ht, hq⟩)⟩
  have htransfer : ∀ a ∈ Finset.range f.code.length, ∀ s, ∃ out,
      (functionFlow f).transfer a s = .ok out := by
    intro a ha s
    obtain ⟨op, hop, ⟨u, hu, hfit, -⟩, -⟩ := hf.operation a (Finset.mem_range.1 ha)
    obtain ⟨s', hs'⟩ := functionTransfer_returns s fun k hk =>
      hfit k (Exec.Executor.named_of_uses hu k hk)
    exact ⟨s', Except.bind_eq_ok.2 ⟨op, hop, hs'⟩⟩
  obtain ⟨r, hr⟩ : ∃ r, (functionFlow f).solve (cutoff factor f.code.length f.slots)
      ⟨startRows f, {0}, [0]⟩ = .ok r := Dataflow.solve_returns _ hwork hnext htransfer
  refine ⟨r, hr, fun hfactor => iff_of_false ?_ hgiven⟩
  obtain ⟨types, htypes⟩ := Dataflow.solve_ends (ranked_functionFlow f) hwork hnext htransfer
    ((pending_start f (Nat.pos_of_ne_zero hcode)).trans
      (le_cutoff hslots (Nat.le_of_not_lt hcells) hfactor))
  rw [Except.ok.inj (hr.symm.trans htypes)]
  exact Option.some_ne_none types

open Exec.Executor (doubleSealed doubleEnv doubleSetting doubleSetting_sealed)

/-- The calling function, sealed, is valid. -/
theorem functionTypes_ends_double :
    ∃ r, functionTypes doubleSealed transferFactor = .ok r ∧
      (3 ≤ transferFactor → (r = none ↔ maxFunctionInferenceCells < 3 * 2 ∨ 3 = 0)) :=
  functionTypes_ends doubleSealed doubleEnv (doubleSetting_sealed.runs (k := 0) rfl).1.valid
    (by decide) transferFactor

end Region

end Rnx
