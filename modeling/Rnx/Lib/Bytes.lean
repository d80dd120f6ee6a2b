import Mathlib.Data.List.Basic
import Mathlib.Data.List.Lex
import Mathlib.Order.Lattice

/-!
# The order of bytes

Bytes are ordered as numbers, and texts of bytes lexicographically.  The texts that begin with a
given one stand together in that order.
-/

namespace Rnx

instance byteOrder : LinearOrder UInt8 where
  le_refl := UInt8.le_refl
  le_trans _ _ _ := UInt8.le_trans
  lt_iff_le_not_ge := by
    intro a b
    rw [UInt8.lt_iff_toNat_lt, UInt8.le_iff_toNat_le, UInt8.le_iff_toNat_le]
    omega
  le_antisymm _ _ := UInt8.le_antisymm
  le_total := UInt8.le_total
  toDecidableLE := inferInstance
  toDecidableEq := inferInstance
  toDecidableLT := inferInstance

namespace Bytes

lemma append_lt_append {a b c : List UInt8} : a ++ b < a ++ c ↔ b < c := by
  induction a with
  | nil => exact Iff.rfl
  | cons x xs ih => exact List.cons_lt_cons_self.trans ih

lemma not_lt_of_prefix {a b : List UInt8} (h : a <+: b) : ¬ b < a := by
  obtain ⟨t, rfl⟩ := h
  intro hlt
  have hnil : t < [] := by
    rwa [← append_lt_append (a := a), List.append_nil]
  exact List.not_lt_nil t hnil

/-- What stands between a text and one that begins with it begins with it. -/
lemma prefix_of_lt {a b t : List UInt8} (h : ¬ b < a) (h' : b < a ++ t) : a <+: b := by
  induction a generalizing b with
  | nil => exact List.nil_prefix
  | cons x xs ih =>
    cases b with
    | nil => exact absurd (List.nil_lt_cons x xs) h
    | cons y ys =>
      rw [List.cons_append, List.cons_lt_cons_iff] at h'
      rw [List.cons_lt_cons_iff, not_or, not_and] at h
      obtain hlt | ⟨rfl, hlt⟩ := h'
      · exact absurd hlt h.1
      · exact (List.prefix_cons_inj y).2 (ih (h.2 rfl) hlt)

end Bytes

end Rnx
