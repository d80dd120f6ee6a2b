import Rnx.Store.Counted
import Rnx.Store.Reachable

/-!
# Cursors enumerate their ranges

The cursor of an inclusive range yields the values of the range in order, each once, and nothing
from then on; it does not step past the end, so the greatest value of a kind is no exception.  The
cursor of an open range looks one value ahead: it yields the values below the greatest one, and
then every call fails and leaves it where it is.
-/

namespace Rnx

open ErrState (Yields)

namespace Store

/-! ## The cursor by itself -/

/-- A step of a cursor; one that fails leaves it. -/
def cursorCall : ErrState Error RangeCursor (Option Value) := fun c =>
  match cursorNext c with
  | .ok (value, cursor) => (.ok value, cursor)
  | .error e => (.error e, c)

variable {α : Type} {K : RangeKind α} {a b c : α}

lemma cursorCall_done (next : Value) (finish : Option Value) :
    cursorCall ⟨next, finish, true⟩ = (.ok none, ⟨next, finish, true⟩) := rfl

lemma cursorCall_of_ok {cursor rest : RangeCursor} {r : Option Value}
    (h : cursorNext cursor = .ok (r, rest)) : cursorCall cursor = (.ok r, rest) := by
  unfold cursorCall
  rw [h]

lemma cursorCall_past (h : K.place b < K.place a) :
    cursorCall ⟨K.value a, some (K.value b), false⟩ =
      (.ok none, ⟨K.value a, some (K.value b), true⟩) := by
  apply cursorCall_of_ok
  unfold cursorNext
  rw [if_neg Bool.false_ne_true, K.state_eq, decide_eq_true h]
  rfl

lemma cursorCall_last (h : K.place a = K.place b) :
    cursorCall ⟨K.value a, some (K.value b), false⟩ =
      (.ok (some (K.value a)), ⟨K.value a, some (K.value b), true⟩) := by
  apply cursorCall_of_ok
  unfold cursorNext
  rw [if_neg Bool.false_ne_true, K.state_eq, decide_eq_false (by omega), decide_eq_true h]
  rfl

lemma cursorCall_before (h : K.place a < K.place b) (hc : K.next a = some c) :
    cursorCall ⟨K.value a, some (K.value b), false⟩ =
      (.ok (some (K.value a)), ⟨K.value c, some (K.value b), false⟩) := by
  apply cursorCall_of_ok
  unfold cursorNext
  rw [if_neg Bool.false_ne_true, K.state_eq, decide_eq_false (by omega), decide_eq_false (by omega)]
  dsimp only [bind, Except.bind]
  rw [K.advance_eq, hc]
  rfl

lemma cursorState_open (v : Value) (done : Bool) :
    cursorState ⟨v, none, done⟩ = .ok (false, false) := by
  cases v <;> rfl

lemma cursorCall_open (hc : K.next a = some c) :
    cursorCall ⟨K.value a, none, false⟩ =
      (.ok (some (K.value a)), ⟨K.value c, none, false⟩) := by
  apply cursorCall_of_ok
  unfold cursorNext
  rw [if_neg Bool.false_ne_true, cursorState_open]
  dsimp only [bind, Except.bind]
  rw [K.advance_eq, hc]
  rfl

lemma cursorCall_top : cursorCall ⟨K.value K.top, none, false⟩ =
    (.error (err .overflow), ⟨K.value K.top, none, false⟩) := by
  unfold cursorCall cursorNext
  rw [if_neg Bool.false_ne_true, cursorState_open]
  dsimp only [bind, Except.bind]
  rw [K.advance_eq, K.next_top]
  rfl

/-- From `a` to `b`, and nothing from then on. -/
lemma yields_closed (K : RangeKind α) (n : Nat) (a b : α)
    (hn : n = (K.place b + 1 - K.place a).toNat) :
    Yields cursorCall ⟨K.value a, some (K.value b), false⟩ ((K.items n a).map K.value) (.ok none) := by
  induction n generalizing a with
  | zero => exact (Yields.still (cursorCall_done _ _)).nil (cursorCall_past (by omega))
  | succ n ih =>
      rcases eq_or_lt_of_le (show K.place a ≤ K.place b by omega) with heq | hlt
      · obtain rfl : n = 0 := by omega
        rw [Counting.Line.items_one]
        exact (Yields.still (cursorCall_done _ _)).cons (cursorCall_last heq)
      · obtain ⟨c, hc, hplace⟩ := K.exists_next a (hlt.trans_le (K.place_le_top b))
        rw [Counting.Line.items_succ hc]
        exact (ih c (by omega)).cons (cursorCall_before hlt hc)

/-- From `a` to the value before the greatest one, and then the overflow. -/
lemma yields_open (K : RangeKind α) (n : Nat) (a : α)
    (hn : n = (K.place K.top - K.place a).toNat) :
    Yields cursorCall ⟨K.value a, none, false⟩ ((K.items n a).map K.value)
      (.error (err .overflow)) := by
  have hle := K.place_le_top a
  induction n generalizing a with
  | zero =>
      obtain rfl : a = K.top := K.place_inj (by omega)
      exact Yields.still cursorCall_top
  | succ n ih =>
      obtain ⟨c, hc, hplace⟩ := K.exists_next a (by omega)
      rw [Counting.Line.items_succ hc]
      exact (ih c (by omega) (K.place_le_top c)).cons (cursorCall_open hc)

/-! ## Sets of values -/

lemma rangeLt_value {x y : α} : RangeLt (K.value x) (K.value y) ↔ K.place x < K.place y := by
  rw [K.lt_iff]
  constructor
  · rintro ⟨z, hz, hlt⟩
    rwa [K.value_inj hz]
  · exact fun h => ⟨y, rfl, h⟩

lemma rangeLe_value {x y : α} : RangeLe (K.value x) (K.value y) ↔ K.place x ≤ K.place y := by
  rw [K.le_iff]
  constructor
  · rintro ⟨z, hz, hle⟩
    rwa [K.value_inj hz]
  · exact fun h => ⟨y, rfl, h⟩

lemma pairwise_value {n : Nat} (hroom : K.place a + n ≤ K.place K.top + 1) :
    ((K.items n a).map K.value).Pairwise RangeLt := by
  rw [List.pairwise_map]
  exact (Counting.Line.pairwise_items hroom).imp rangeLt_value.2

lemma mem_value {n : Nat} (hroom : K.place a + n ≤ K.place K.top + 1) (v : Value) :
    v ∈ (K.items n a).map K.value ↔
      ∃ x, v = K.value x ∧ K.place a ≤ K.place x ∧ K.place x < K.place a + n := by
  rw [List.mem_map]
  constructor
  · rintro ⟨x, hx, rfl⟩
    exact ⟨x, rfl, (Counting.Line.mem_items hroom).1 hx⟩
  · rintro ⟨x, rfl, hx⟩
    exact ⟨x, (Counting.Line.mem_items hroom).2 hx, rfl⟩

/-- The values of a cursor: up to its end, or those that are not the greatest. -/
def UpTo (finish : Option Value) (v : Value) : Prop :=
  match finish with
  | some finish => RangeLe v finish
  | none => ∃ w, RangeLt v w

/-! ## The cursor in the store -/

variable {s : Store} {h : Handle} {p q : Payload}

lemma mutable_modify (hm : s.mutable h = .ok p) (hq : q.isMoved = false) :
    (s.modify h.slot fun e => { e with payload := q }).mutable h = .ok q := by
  obtain ⟨hopen, e, he, hread, hp, hmoved⟩ := mutable_eq_ok.1 hm
  exact mutable_eq_ok.2 ⟨hopen, _, at?_modify_self he _, hread, rfl, hq⟩

/-- The payload of a cursor. -/
def cursorPayload (source : Option Handle) (cursor : RangeCursor) : Payload :=
  .otherRangeIterator ⟨source, .range cursor⟩

lemma run_mutable (hm : s.mutable h = .ok p) :
    (ErrState.read fun s => s.mutable h : M Payload) s = (.ok p, s) := Prod.ext hm rfl

lemma run_payload (hm : s.payload h = .ok p) :
    (ErrState.read fun s => s.payload h : M Payload) s = (.ok p, s) := Prod.ext hm rfl

/-- A step of the boxed iterator is a step of its cursor. -/
lemma otherRangeNext_step {source : Option Handle} {cursor : RangeCursor}
    (hm : s.mutable h = .ok (cursorPayload source cursor)) :
    (otherRangeNext h s).1 = (cursorCall cursor).1 ∧
      (otherRangeNext h s).2.mutable h = .ok (cursorPayload source (cursorCall cursor).2) := by
  unfold otherRangeNext cursorCall
  rw [ErrState.run_bind (run_payload (payload_of_mutable hm))]
  dsimp only [cursorPayload]
  rw [ErrState.run_bind (run_mutable hm)]
  dsimp only [cursorPayload]
  rcases hnext : cursorNext cursor with e | ⟨value, rest⟩
  · exact ⟨rfl, hm⟩
  · exact ⟨rfl, mutable_modify hm rfl⟩

lemma iteratorNext_cursor {source : Option Handle} {cursor : RangeCursor}
    (hm : s.mutable h = .ok (cursorPayload source cursor)) :
    iteratorNext (.heap h) s = otherRangeNext h s := by
  unfold iteratorNext
  dsimp only
  rw [ErrState.run_bind (run_mutable hm)]
  rfl

/-- What the cursor yields, the iterator yields through either call. -/
lemma yields_of_cursor {source : Option Handle} {cursor : RangeCursor} {vs : List Value}
    {r : Except Error (Option Value)} (hm : s.mutable h = .ok (cursorPayload source cursor))
    (hvs : Yields cursorCall cursor vs r) :
    Yields (otherRangeNext h) s vs r ∧ Yields (iteratorNext (.heap h)) s vs r := by
  constructor
  · exact .of_simulates (R := fun s c => s.mutable h = .ok (cursorPayload source c))
      (fun s c hm => otherRangeNext_step hm) hm hvs
  · refine .of_simulates (R := fun s c => s.mutable h = .ok (cursorPayload source c))
      (fun s c hm => ?_) hm hvs
    rw [iteratorNext_cursor hm]
    exact otherRangeNext_step hm

/-- Two values that can be compared are of one kind. -/
lemma exists_kind {v w : Value} (hvw : RangeLe v w ∨ RangeLe w v) :
    ∃ (α : Type) (K : RangeKind α) (a b : α), v = K.value a ∧ w = K.value b := by
  cases v with
  | i64 a =>
      cases w with
      | i64 b => exact ⟨I64, .signed, a, b, rfl, rfl⟩
      | _ => exact absurd hvw (by simp [RangeLe])
  | u64 a =>
      cases w with
      | u64 b => exact ⟨U64, .unsigned, a, b, rfl, rfl⟩
      | _ => exact absurd hvw (by simp [RangeLe])
  | char a =>
      cases w with
      | char b => exact ⟨Char, .char, a, b, rfl, rfl⟩
      | _ => exact absurd hvw (by simp [RangeLe])
  | _ => exact absurd hvw (by simp [RangeLe])

/-- The cursor of a range, at its start: repeated calls yield the values of the range, each once
and in order.  A range with an end yields those up to it, the greatest value of the kind included,
and nothing from then on; an open one yields those below the greatest value, and then every call
fails with the overflow.  It is so through either call. -/
theorem range_cursor_yields (s : Store) (h : Handle) (source : Option Handle) (start : Value)
    (finish : Option Value) (hstart : RangeLe start start)
    (hfinish : ∀ v ∈ finish, RangeLe start v ∨ RangeLe v start)
    (hm : s.mutable h = .ok (.otherRangeIterator ⟨source, .range ⟨start, finish, false⟩⟩)) :
    ∃ vs : List Value, vs.Pairwise RangeLt ∧ (∀ v, v ∈ vs ↔ RangeLe start v ∧ UpTo finish v) ∧
      Yields (otherRangeNext h) s vs
        (if finish.isSome then .ok none else .error (err .overflow)) ∧
      Yields (iteratorNext (.heap h)) s vs
        (if finish.isSome then .ok none else .error (err .overflow)) := by
  cases finish with
  | some finish =>
      obtain ⟨α, K, a, b, rfl, rfl⟩ := exists_kind (hfinish finish rfl)
      have ha := K.place_le_top a
      have hb := K.place_le_top b
      have hroom : K.place a + (K.place b + 1 - K.place a).toNat ≤ K.place K.top + 1 := by omega
      refine ⟨_, pairwise_value hroom, fun v => ?_, yields_of_cursor hm (yields_closed K _ a b rfl)⟩
      rw [mem_value hroom, K.le_iff]
      constructor
      · rintro ⟨x, rfl, hx, hlt⟩
        exact ⟨⟨x, rfl, hx⟩, rangeLe_value.2 (by omega)⟩
      · rintro ⟨⟨x, rfl, hx⟩, hle⟩
        have := rangeLe_value.1 hle
        exact ⟨x, rfl, hx, by omega⟩
  | none =>
      obtain ⟨α, K, a, -, rfl, -⟩ := exists_kind (.inl hstart)
      have ha := K.place_le_top a
      have hroom : K.place a + (K.place K.top - K.place a).toNat ≤ K.place K.top + 1 := by omega
      refine ⟨_, pairwise_value hroom, fun v => ?_, yields_of_cursor hm (yields_open K _ a rfl)⟩
      rw [mem_value hroom, K.le_iff]
      constructor
      · rintro ⟨x, rfl, hx, hlt⟩
        exact ⟨⟨x, rfl, hx⟩, K.value K.top, rangeLt_value.2 (by omega)⟩
      · rintro ⟨⟨x, rfl, hx⟩, w, hw⟩
        obtain ⟨y, rfl, hlt⟩ := (K.lt_iff _ _).1 hw
        have := K.place_le_top y
        exact ⟨x, rfl, hx, by omega⟩

/-- The greatest signed integer. -/
def greatest : Value := .i64 ⟨9223372036854775807, by decide, by decide⟩

/-- An iterator over a range of another shape that has just been made. -/
def iterating (tag : Ty) (args : List Value) : Store :=
  (Call.iterator (.heap ⟨0, 1⟩)).after ((Call.otherRange tag args).after roomy)

/-- The greatest integer alone is yielded. -/
theorem range_cursor_yields_greatest : ∃ vs : List Value, vs.Pairwise RangeLt ∧
    (∀ v, v ∈ vs ↔ RangeLe greatest v ∧ RangeLe v greatest) ∧
    Yields (otherRangeNext ⟨1, 1⟩) (iterating .rangeInclusive [greatest, greatest]) vs (.ok none) ∧
    Yields (iteratorNext (.heap ⟨1, 1⟩)) (iterating .rangeInclusive [greatest, greatest]) vs
      (.ok none) :=
  range_cursor_yields _ _ none greatest (some greatest) (le_refl _)
    (fun _ hv => .inl (Option.some.inj hv ▸ le_refl _)) rfl

/-- From the greatest integer on, an open range yields not even that. -/
theorem open_range_misses_greatest : ¬ ∃ (vs : List Value) (r : Except Error (Option Value)),
    (∀ v, v ∈ vs ↔ RangeLe greatest v) ∧
      Yields (otherRangeNext ⟨1, 1⟩) (iterating .rangeFrom [greatest]) vs r := by
  rintro ⟨vs, r, hvs, hyields⟩
  have hmem : greatest ∈ vs := (hvs greatest).2 (le_refl _)
  have hfirst := hyields 0
  cases vs with
  | nil => cases hmem
  | cons v vs =>
      have hfails : (otherRangeNext ⟨1, 1⟩ (iterating .rangeFrom [greatest])).1 =
          .error (err .overflow) := rfl
      cases hfails.symm.trans hfirst

end Store

end Rnx
