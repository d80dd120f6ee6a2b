import Rnx.Lib.Counting
import Rnx.Store.Iteration

/-!
# The values that ranges count

Signed integers, unsigned integers and characters are counted by ranges.  What the cursors do with
a value of one kind is stated once, in terms of its place; the places of characters leave out the
surrogates.
-/

namespace Rnx

/-! ## The order of a kind -/

/-- Two values of one kind, the first not after the second. -/
def RangeLe : Value → Value → Prop
  | .i64 a, .i64 b => a.val ≤ b.val
  | .u64 a, .u64 b => a.val ≤ b.val
  | .char a, .char b => a.toNat ≤ b.toNat
  | _, _ => False

/-- Two values of one kind, the first before the second. -/
def RangeLt : Value → Value → Prop
  | .i64 a, .i64 b => a.val < b.val
  | .u64 a, .u64 b => a.val < b.val
  | .char a, .char b => a.toNat < b.toNat
  | _, _ => False

/-- A kind of values that ranges count. -/
structure RangeKind (α : Type) extends Counting.Line α where
  value : α → Value
  value_inj : ∀ {a b : α}, value a = value b → a = b
  le_iff : ∀ a v, RangeLe (value a) v ↔ ∃ b, v = value b ∧ place a ≤ place b
  lt_iff : ∀ a v, RangeLt (value a) v ↔ ∃ b, v = value b ∧ place a < place b
  /-- How a cursor stands to its end. -/
  state_eq : ∀ a b done, Store.cursorState ⟨value a, some (value b), done⟩ =
    .ok (decide (place b < place a), decide (place a = place b))
  advance_eq : ∀ a, Store.cursorAdvance (value a) = (okOr (next a) (err .overflow)).map value
  /-- A step within a half-open range. -/
  range_eq : ∀ a b, Store.valueRangeAdvance (value a) (value b) =
    .ok (if place a < place b then (next a).map value else none)

namespace RangeKind

/-! ## The three kinds -/

def signed : RangeKind I64 where
  place a := a.val
  next := I64.succ?
  top := ⟨2 ^ 63 - 1, by decide, by decide⟩
  place_inj := I64.ext
  place_le_top a := by
    have := a.upper
    show a.val ≤ 2 ^ 63 - 1
    omega
  next_top := by decide
  exists_next a h := by
    have hlower := a.lower
    have hupper : a.val < 2 ^ 63 - 1 := h
    exact ⟨⟨a.val + 1, by omega, by omega⟩, I64.succ?_eq_some.2 rfl, rfl⟩
  value := .i64
  value_inj h := Value.i64.inj h
  le_iff a v := by
    cases v <;> simp [RangeLe]
  lt_iff a v := by
    cases v <;> simp [RangeLt]
  state_eq a b done := rfl
  advance_eq a := rfl
  range_eq a b := by
    show (if _ then _ else _) = _
    split_ifs with h
    · have hlower := a.lower
      have hupper := b.upper
      have hnext : a.succ? = some ⟨a.val + 1, by omega, by omega⟩ := I64.succ?_eq_some.2 rfl
      rw [hnext]
      rfl
    · rfl

def unsigned : RangeKind U64 where
  place a := a.val
  next := U64.succ?
  top := ⟨2 ^ 64 - 1, by decide⟩
  place_inj h := U64.ext (Int.ofNat_inj.1 h)
  place_le_top a := by
    have := a.upper
    show (a.val : Int) ≤ ((2 ^ 64 - 1 : Nat) : Int)
    omega
  next_top := by decide
  exists_next a h := by
    have hupper : (a.val : Int) < ((2 ^ 64 - 1 : Nat) : Int) := h
    exact ⟨⟨a.val + 1, by omega⟩, U64.succ?_eq_some.2 rfl, Int.natCast_succ _⟩
  value := .u64
  value_inj h := Value.u64.inj h
  le_iff a v := by
    cases v <;> simp [RangeLe]
  lt_iff a v := by
    cases v <;> simp [RangeLt]
  state_eq a b done := by
    show Except.ok (decide (a.val > b.val), decide (a.val = b.val)) = _
    simp only [Int.ofNat_lt, Int.ofNat_inj, gt_iff_lt]
  advance_eq a := rfl
  range_eq a b := by
    show (if _ then _ else _) = _
    simp only [Int.ofNat_lt]
    split_ifs with h
    · have hupper := b.upper
      have hnext : a.succ? = some ⟨a.val + 1, by omega⟩ := U64.succ?_eq_some.2 rfl
      rw [hnext]
      rfl
    · rfl

lemma toNat_valid (c : Char) :
    c.toNat < 0xd800 ∨ 0xdfff < c.toNat ∧ c.toNat < 0x110000 := c.valid

/-- The ordinal of a character is its code without the surrogates. -/
lemma ordinal_eq (c : Char) :
    (c.ordinal : Nat) = if c.toNat < 0xd800 then c.toNat else c.toNat - 0x800 := Char.coe_ordinal

lemma ordinal_lt {a b : Char} : ((a.ordinal : Nat) : Int) < ((b.ordinal : Nat) : Int) ↔
    a.toNat < b.toNat := by
  rw [Int.ofNat_lt]
  exact Char.lt_iff_ordinal_lt.symm

lemma ordinal_le {a b : Char} : ((a.ordinal : Nat) : Int) ≤ ((b.ordinal : Nat) : Int) ↔
    a.toNat ≤ b.toNat := by
  rw [Int.ofNat_le]
  exact Char.le_iff_ordinal_le.symm

lemma ordinal_eq_iff {a b : Char} : ((a.ordinal : Nat) : Int) = ((b.ordinal : Nat) : Int) ↔
    a = b := by
  rw [Int.ofNat_inj, Fin.val_inj, Char.ordinal_inj]

lemma ordinal_succ {a b : Char}
    (h : b.toNat = if a.toNat + 1 = 0xd800 then 0xe000 else a.toNat + 1) :
    (b.ordinal : Nat) = a.ordinal + 1 := by
  have ha := toNat_valid a
  rw [ordinal_eq a, ordinal_eq b, h]
  split_ifs <;> omega

lemma exists_nextChar {a : Char} (h : a.toNat < 0x10ffff) :
    ∃ b, Store.nextChar a = some b ∧ (b.ordinal : Nat) = a.ordinal + 1 := by
  have ha := toNat_valid a
  have hnext : (if a.toNat + 1 = 0xd800 then 0xe000 else a.toNat + 1).isValidChar := by
    unfold Nat.isValidChar
    split_ifs <;> omega
  exact ⟨_, dif_pos hnext, ordinal_succ rfl⟩

def char : RangeKind Char where
  place c := (c.ordinal : Nat)
  next := Store.nextChar
  top := Char.ofNat 0x10ffff
  place_inj h := ordinal_eq_iff.1 h
  place_le_top a := by
    have ha := toNat_valid a
    have htop : (Char.ofNat 0x10ffff).toNat = 0x10ffff := by decide
    rw [ordinal_le, htop]
    omega
  next_top := by decide
  exists_next a h := by
    have htop : (Char.ofNat 0x10ffff).toNat = 0x10ffff := by decide
    rw [ordinal_lt, htop] at h
    obtain ⟨b, hb, hplace⟩ := exists_nextChar h
    exact ⟨b, hb, by rw [hplace, Int.natCast_succ]⟩
  value := .char
  value_inj h := Value.char.inj h
  le_iff a v := by
    cases v <;> simp only [RangeLe, ordinal_le] <;> simp
  lt_iff a v := by
    cases v <;> simp only [RangeLt, ordinal_lt] <;> simp
  state_eq a b done := by
    show Except.ok (decide (a.toNat > b.toNat), decide (a = b)) = _
    simp only [ordinal_lt, ordinal_eq_iff, gt_iff_lt]
  advance_eq a := rfl
  range_eq a b := by
    show (if _ then _ else _) = _
    simp only [ordinal_lt]
    split_ifs with h
    · have hb := toNat_valid b
      obtain ⟨c, hc, -⟩ := exists_nextChar (a := a) (by omega)
      rw [hc]
      rfl
    · rfl

end RangeKind

end Rnx
