import Mathlib.Tactic.Common
import Mathlib.Order.Lattice

/-!
# Counting

Some values can be counted: each has a place among the integers, the one after it is at the next
place, and there is a last one.  The places are consecutive, so a count of `n` values from a given
one on is known place by place, whether it is made step by step or by an offset.
-/

namespace Counting

/-- How values are counted, up to `top`. -/
structure Line (α : Type) where
  place : α → Int
  next : α → Option α
  top : α
  place_inj : ∀ {a b : α}, place a = place b → a = b
  place_le_top : ∀ a, place a ≤ place top
  next_top : next top = none
  exists_next : ∀ a, place a < place top → ∃ b, next a = some b ∧ place b = place a + 1

namespace Line

variable {α : Type} (L : Line α)

/-- The `n` values from `a` on, or as many as there are. -/
def items : Nat → α → List α
  | 0, _ => []
  | n + 1, a => a :: ((L.next a).map (items n)).getD []

variable {L} {a b c : α} {n i : Nat}

@[simp] lemma items_zero : L.items 0 a = [] := rfl

lemma items_succ (h : L.next a = some b) : L.items (n + 1) a = a :: L.items n b := by
  rw [items, h]
  rfl

lemma items_one : L.items 1 a = [a] := by
  rw [items]
  cases L.next a <;> rfl

/-- What stands where in a count that has room. -/
lemma getElem?_items (hroom : L.place a + n ≤ L.place L.top + 1) :
    (L.items n a)[i]? = some c ↔ i < n ∧ L.place c = L.place a + i := by
  induction n generalizing a i with
  | zero => simp
  | succ n ih =>
      cases i with
      | zero =>
          rw [items, List.getElem?_cons_zero, Option.some.injEq, Int.natCast_zero, Int.add_zero]
          constructor
          · rintro rfl
            exact ⟨Nat.succ_pos n, rfl⟩
          · exact fun h => (L.place_inj h.2).symm
      | succ i =>
          rcases Nat.eq_zero_or_pos n with rfl | hpos
          · rw [items_one]
            simp
          · obtain ⟨b, hb, hplace⟩ := L.exists_next a (by omega)
            rw [items_succ hb, List.getElem?_cons_succ, ih (by omega), hplace]
            constructor
            · rintro ⟨hi, hc⟩
              exact ⟨by omega, by omega⟩
            · rintro ⟨hi, hc⟩
              exact ⟨by omega, by omega⟩

lemma length_items (hroom : L.place a + n ≤ L.place L.top + 1) : (L.items n a).length = n := by
  induction n generalizing a with
  | zero => rfl
  | succ n ih =>
      rcases Nat.eq_zero_or_pos n with rfl | hpos
      · rw [items_one]
        rfl
      · obtain ⟨b, hb, hplace⟩ := L.exists_next a (by omega)
        rw [items_succ hb, List.length_cons, ih (by omega)]

/-- Every place that a count has room for is that of a value. -/
lemma exists_place (h : L.place a + i ≤ L.place L.top) : ∃ c, L.place c = L.place a + i := by
  have hroom : L.place a + ((i + 1 : Nat) : Int) ≤ L.place L.top + 1 := by omega
  have hlt : i < (L.items (i + 1) a).length := by
    rw [length_items hroom]
    exact Nat.lt_succ_self i
  exact ⟨_, ((getElem?_items hroom).1 (List.getElem?_eq_getElem hlt)).2⟩

lemma mem_items (hroom : L.place a + n ≤ L.place L.top + 1) :
    c ∈ L.items n a ↔ L.place a ≤ L.place c ∧ L.place c < L.place a + n := by
  rw [List.mem_iff_getElem?]
  constructor
  · rintro ⟨i, hi⟩
    obtain ⟨hlt, hplace⟩ := (getElem?_items hroom).1 hi
    exact ⟨by omega, by omega⟩
  · rintro ⟨hle, hlt⟩
    refine ⟨(L.place c - L.place a).toNat, (getElem?_items hroom).2 ⟨?_, ?_⟩⟩
    · omega
    · omega

/-- A count goes up. -/
lemma pairwise_items (hroom : L.place a + n ≤ L.place L.top + 1) :
    (L.items n a).Pairwise fun b c => L.place b < L.place c := by
  rw [List.pairwise_iff_getElem]
  intro i j hi hj hij
  have hb := ((getElem?_items hroom).1 (List.getElem?_eq_getElem hi)).2
  have hc := ((getElem?_items hroom).1 (List.getElem?_eq_getElem hj)).2
  omega

end Line

end Counting
