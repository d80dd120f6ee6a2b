import Mathlib.Logic.Relation

/-!
# Levels of a graph

`Levels r n v` says that no path from `v` along `r` has more than `n` vertices, and `Fits r P n v`
that all of them are in `P` as well.  A walk that goes down at most so many levels, whatever it shares
and wherever it is called, is described by these alone.

* `Levels.acyclic` — a vertex with a bound on its levels reaches no cycle;
* `fits_iff` — `Fits` is a bound on the levels and the property of all that is reachable.
-/

namespace Rnx

open Relation (ReflTransGen TransGen)

variable {α : Type} {r : α → α → Prop} {P : α → Prop} {n m : Nat} {v w : α}

/-- No path from a vertex has more than so many vertices. -/
def Levels (r : α → α → Prop) : Nat → α → Prop
  | 0, _ => False
  | n + 1, v => ∀ w, r v w → Levels r n w

/-- No path from a vertex has more than so many vertices, and all of them have the property. -/
def Fits (r : α → α → Prop) (P : α → Prop) : Nat → α → Prop
  | 0, _ => False
  | n + 1, v => P v ∧ ∀ w, r v w → Fits r P n w

lemma Levels.mono (h : Levels r n v) (hle : n ≤ m) : Levels r m v := by
  induction n generalizing m v with
  | zero => exact h.elim
  | succ n ih =>
      obtain ⟨m, rfl⟩ := Nat.exists_eq_add_of_lt hle
      exact fun w hw => ih (h w hw) (Nat.le_add_right n m)

lemma Levels.reaches (h : Levels r n v) (hw : ReflTransGen r v w) : Levels r n w := by
  induction hw with
  | refl => exact h
  | tail _ hstep ih =>
      cases n with
      | zero => exact ih.elim
      | succ n => exact (ih _ hstep).mono (Nat.le_succ n)

/-- A vertex on a cycle has no bound on its levels. -/
lemma Levels.not_cycle (h : Levels r n v) : ¬TransGen r v v := by
  induction n generalizing v with
  | zero => exact h.elim
  | succ n ih =>
      intro hcycle
      obtain ⟨w, hstep, hback⟩ := Relation.TransGen.head'_iff.1 hcycle
      exact ih (h w hstep) (Relation.TransGen.tail'_iff.2 ⟨v, hback, hstep⟩)

lemma Levels.acyclic (h : Levels r n v) (hw : ReflTransGen r v w) : ¬TransGen r w w :=
  (h.reaches hw).not_cycle

lemma fits_iff : Fits r P n v ↔ Levels r n v ∧ ∀ w, ReflTransGen r v w → P w := by
  induction n generalizing v with
  | zero => exact ⟨fun h => h.elim, fun h => h.1.elim⟩
  | succ n ih =>
      constructor
      · rintro ⟨hv, hchildren⟩
        refine ⟨fun w hw => (ih.1 (hchildren w hw)).1, fun w hw => ?_⟩
        obtain rfl | ⟨u, hu, hw⟩ := Relation.ReflTransGen.cases_head hw
        · exact hv
        · exact (ih.1 (hchildren u hu)).2 w hw
      · rintro ⟨hlevels, hall⟩
        exact ⟨hall v .refl, fun w hw =>
          ih.2 ⟨hlevels w hw, fun u hu => hall u (.head hw hu)⟩⟩

end Rnx
