import Mathlib.Data.List.Basic
import Mathlib.Tactic.Common

/-!
# Where a list is divided

`partition_point` finds by bisection how many elements at the front of a list satisfy a predicate
that none of the others does.  In a list that is ordered, a predicate that passes down the order
divides the list so.
-/

namespace Rnx

namespace Partition

/-- Bisection between two places. -/
def bisect (p : Nat → Bool) (lo hi : Nat) : Nat :=
  if lo < hi then
    if p ((lo + hi) / 2) then bisect p ((lo + hi) / 2 + 1) hi else bisect p lo ((lo + hi) / 2)
  else lo
termination_by hi - lo

/-- `slice::partition_point`. -/
def partitionPoint {α : Type} (p : α → Bool) (l : List α) : Nat :=
  bisect (fun i => l[i]?.any p) 0 l.length

lemma bisect_eq {p : Nat → Bool} {lo hi n : Nat} (hlo : lo ≤ n) (hhi : n ≤ hi)
    (h : ∀ i, i < hi → (p i = true ↔ i < n)) : bisect p lo hi = n := by
  fun_induction bisect p lo hi with
  | case1 lo hi hlt hp ih => exact ih ((h _ (by omega)).1 hp) hhi h
  | case2 lo hi hlt hp ih =>
    have hle : n ≤ (lo + hi) / 2 := by
      by_contra hn
      exact hp ((h _ (by omega)).2 (by omega))
    exact ih hlo hle fun i hi => h i (by omega)
  | case3 lo hi hge => omega

variable {α : Type} {p : α → Bool} {r : α → α → Prop} {l l' : List α}

/-- A list in two parts, as the predicate says, is divided where the first part ends. -/
lemma partitionPoint_append (hl : ∀ a ∈ l, p a = true) (hl' : ∀ a ∈ l', p a = false) :
    partitionPoint p (l ++ l') = l.length := by
  apply bisect_eq (Nat.zero_le _)
  · rw [List.length_append]
    omega
  · intro i hi
    by_cases hlt : i < l.length
    · rw [List.getElem?_append_left hlt, List.getElem?_eq_getElem hlt, Option.any_some]
      exact iff_of_true (hl _ (List.getElem_mem hlt)) hlt
    · rw [List.length_append] at hi
      have hin : i - l.length < l'.length := by omega
      rw [List.getElem?_append_right (by omega), List.getElem?_eq_getElem hin, Option.any_some]
      exact iff_of_false (by rw [hl' _ (List.getElem_mem hin)]; exact Bool.false_ne_true) hlt

/-- A predicate that passes down the order of a list divides it. -/
lemma filter_append_filter (hsorted : l.Pairwise r)
    (hdown : ∀ a b, r a b → p b = true → p a = true) :
    l.filter p ++ l.filter (fun a => !p a) = l := by
  induction l with
  | nil => rfl
  | cons a l ih =>
    obtain ⟨hfirst, hsorted⟩ := List.pairwise_cons.1 hsorted
    cases hp : p a with
    | true =>
      rw [List.filter_cons_of_pos hp, List.filter_cons_of_neg (by rw [hp]; exact Bool.false_ne_true),
        List.cons_append, ih hsorted]
    | false =>
      have hrest : ∀ b ∈ l, p b = false := fun b hb =>
        Bool.eq_false_iff.2 fun hpb => by rw [hdown a b (hfirst b hb) hpb] at hp; cases hp
      rw [List.filter_cons_of_neg (by rw [hp]; exact Bool.false_ne_true),
        List.filter_eq_nil_iff.2 fun b hb => by rw [hrest b hb]; exact Bool.false_ne_true,
        List.nil_append]
      exact List.filter_eq_self.2 fun b hb => by
        obtain rfl | hb := List.mem_cons.1 hb
        · rw [hp]
          rfl
        · rw [hrest b hb]
          rfl

/-- The division of an ordered list by a predicate that passes down the order. -/
lemma partitionPoint_eq (hsorted : l.Pairwise r) (hdown : ∀ a b, r a b → p b = true → p a = true) :
    partitionPoint p l = (l.filter p).length := by
  conv_lhs => rw [← filter_append_filter hsorted hdown]
  apply partitionPoint_append
  · intro a ha
    exact (List.mem_filter.1 ha).2
  · intro a ha
    have h := (List.mem_filter.1 ha).2
    rwa [Bool.not_eq_true'] at h

lemma take_partitionPoint (hsorted : l.Pairwise r)
    (hdown : ∀ a b, r a b → p b = true → p a = true) :
    l.take (partitionPoint p l) = l.filter p := by
  have h := filter_append_filter hsorted hdown
  rw [partitionPoint_eq hsorted hdown]
  calc l.take (l.filter p).length
      = (l.filter p ++ l.filter fun a => !p a).take (l.filter p).length := by rw [h]
    _ = l.filter p := List.take_left

lemma drop_partitionPoint (hsorted : l.Pairwise r)
    (hdown : ∀ a b, r a b → p b = true → p a = true) :
    l.drop (partitionPoint p l) = l.filter fun a => !p a := by
  have h := filter_append_filter hsorted hdown
  rw [partitionPoint_eq hsorted hdown]
  calc l.drop (l.filter p).length
      = (l.filter p ++ l.filter fun a => !p a).drop (l.filter p).length := by rw [h]
    _ = l.filter fun a => !p a := List.drop_left

lemma partitionPoint_map {β : Type} (f : β → α) (l : List β) :
    partitionPoint p (l.map f) = partitionPoint (fun b => p (f b)) l := by
  unfold partitionPoint
  rw [List.length_map]
  congr 1
  funext i
  rw [List.getElem?_map, Option.any_map]

/-- A range of an ordered list: first what comes before it is skipped, then it is taken. -/
lemma slice_eq {q : α → Bool} (hsorted : l.Pairwise r)
    (hdown : ∀ a b, r a b → p b = true → p a = true)
    (hrange : ∀ a b, r a b → p a = false → q b = true → q a = true)
    (hskip : ∀ a, q a = true → p a = false) :
    (l.drop (partitionPoint p l)).take (partitionPoint q (l.drop (partitionPoint p l))) =
        l.filter q ∧
      partitionPoint q (l.drop (partitionPoint p l)) = (l.filter q).length := by
  have hrest : (l.filter fun a => !p a).Pairwise fun a b => r a b ∧ p a = false := by
    refine (List.Pairwise.sublist List.filter_sublist hsorted).imp_of_mem fun {a b} ha _ hab => ?_
    have h := (List.mem_filter.1 ha).2
    rw [Bool.not_eq_true'] at h
    exact ⟨hab, h⟩
  have hboth : (l.filter fun a => !p a).filter q = l.filter q := by
    rw [List.filter_filter]
    refine List.filter_congr fun a _ => ?_
    cases hq : q a with
    | false => rfl
    | true =>
      rw [hskip a hq]
      rfl
  have hpass := fun a b (hab : r a b ∧ p a = false) => hrange a b hab.1 hab.2
  rw [drop_partitionPoint hsorted hdown, take_partitionPoint hrest hpass,
    partitionPoint_eq hrest hpass, hboth]
  exact ⟨rfl, rfl⟩

end Partition

end Rnx
