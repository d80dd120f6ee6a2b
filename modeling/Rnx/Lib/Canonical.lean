import Mathlib.Data.List.Sort

/-!
# Lists in the order of a key

A list sorted by a key is the same for every order of its elements, as soon as no two of them share
the key; that none do is what a check of the sorted list for strict order says.
-/

namespace Rnx

namespace Canonical

variable {α κ : Type} [LinearOrder κ] {key : α → κ} {l l' : List α}

/-- A list sorted by a key. -/
def sortBy (key : α → κ) (l : List α) : List α := l.mergeSort fun a b => key a ≤ key b

lemma sortBy_perm (key : α → κ) (l : List α) : (sortBy key l).Perm l := List.mergeSort_perm l _

lemma sortBy_sorted (key : α → κ) (l : List α) : ((sortBy key l).map key).Pairwise (· ≤ ·) := by
  refine List.pairwise_map.2 ((List.pairwise_mergeSort (fun a b c hab hbc => ?_) (fun a b => ?_) l).imp
    fun hab => of_decide_eq_true hab)
  · exact decide_eq_true ((of_decide_eq_true hab).trans (of_decide_eq_true hbc))
  · rw [Bool.or_eq_true, decide_eq_true_eq, decide_eq_true_eq]
    exact le_total (key a) (key b)

/-- **Canonical order**: a list whose keys differ sorts as each of its permutations does. -/
lemma sortBy_eq (hperm : l.Perm l') (hdistinct : (l.map key).Nodup) : sortBy key l = sortBy key l' := by
  have hsame := ((sortBy_perm key l).trans hperm).trans (sortBy_perm key l').symm
  refine hsame.eq_of_pairwise (fun a b ha hb hab hba => ?_) (List.pairwise_map.1 (sortBy_sorted key l))
    (List.pairwise_map.1 (sortBy_sorted key l'))
  have ha := (sortBy_perm key l).mem_iff.1 ha
  have hb := hperm.mem_iff.2 ((sortBy_perm key l').mem_iff.1 hb)
  exact List.inj_on_of_nodup_map hdistinct ha hb (le_antisymm hab hba)

/-- A sorted list in strict order has no two elements with one key, however it was ordered before. -/
lemma nodup_of_strict (h : ((sortBy key l).map key).Pairwise (· < ·)) : (l.map key).Nodup :=
  ((sortBy_perm key l).map key).nodup_iff.1 (h.imp fun hlt => hlt.ne)

/-- Sorting by the element itself needs no check. -/
lemma sortBy_id_eq {l l' : List κ} (hperm : l.Perm l') : sortBy id l = sortBy id l' := by
  have hsame := ((sortBy_perm id l).trans hperm).trans (sortBy_perm id l').symm
  have hsorted := fun l : List κ => List.pairwise_map.1 (sortBy_sorted id l)
  exact hsame.eq_of_pairwise (fun _ _ _ _ => le_antisymm) (hsorted l) (hsorted l')

end Canonical

end Rnx
