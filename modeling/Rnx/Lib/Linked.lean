import Mathlib.Data.List.Nodup
import Mathlib.Tactic.Common

/-!
# Doubly linked lists threaded through a table

A table whose cells carry a `previous` and a `next` link spells out a list when following the
links from one end reaches every element once.  `Linked prev next first last order` says that
the links are exactly those of the list `order`: each element's neighbours are the elements
written before and after it.

Two edits are supported, the only ones an allocation order needs: a fresh element joins at the
tail (`Linked.append`), and an element leaves from anywhere (`Linked.remove`).
-/

/-- The links `prev`, `next` and the two ends spell out the list `order`. -/
structure Linked {ι : Type} (prev next : ι → Option ι) (first last : Option ι)
    (order : List ι) : Prop where
  nodup : order.Nodup
  first_eq : first = order.head?
  last_eq : last = order.getLast?
  neighbours : ∀ l x r, order = l ++ x :: r → prev x = l.getLast? ∧ next x = r.head?

namespace Linked

variable {ι : Type} {prev next prev' next' : ι → Option ι} {first last : Option ι}
  {order : List ι}

/-- The empty list. -/
lemma nil (prev next : ι → Option ι) : Linked prev next none none [] where
  nodup := List.nodup_nil
  first_eq := rfl
  last_eq := rfl
  neighbours := by
    intro l x r h
    simp at h

/-- Only the links of listed elements matter. -/
lemma congr (h : Linked prev next first last order) (hp : ∀ x ∈ order, prev' x = prev x)
    (hn : ∀ x ∈ order, next' x = next x) : Linked prev' next' first last order where
  nodup := h.nodup
  first_eq := h.first_eq
  last_eq := h.last_eq
  neighbours := by
    intro l x r e
    have hx : x ∈ order := by rw [e]; simp
    rw [hp x hx, hn x hx]
    exact h.neighbours l x r e

/-- The links of a listed element are determined by the list. -/
lemma links_of_mem (h : Linked prev next first last order)
    (h' : Linked prev' next' first last order) {x : ι} (hx : x ∈ order) :
    prev' x = prev x ∧ next' x = next x := by
  obtain ⟨l, r, e⟩ := List.append_of_mem hx
  obtain ⟨hp, hn⟩ := h.neighbours l x r e
  obtain ⟨hp', hn'⟩ := h'.neighbours l x r e
  exact ⟨hp'.trans hp.symm, hn'.trans hn.symm⟩

/-- The two ends as the list gives them. -/
lemma head_mem (h : Linked prev next first last order) {x : ι} (hx : first = some x) :
    x ∈ order := by
  rw [h.first_eq] at hx
  exact List.mem_of_mem_head? hx

lemma last_mem (h : Linked prev next first last order) {x : ι} (hx : last = some x) :
    x ∈ order := by
  rw [h.last_eq] at hx
  exact List.mem_of_getLast? hx

/-- The tail of the list has no successor. -/
lemma next_last (h : Linked prev next first last order) {x : ι} (hx : last = some x) :
    next x = none := by
  rw [h.last_eq, List.getLast?_eq_some_iff] at hx
  obtain ⟨l, rfl⟩ := hx
  exact (h.neighbours l x [] (by simp)).2

/-- A fresh element joins at the tail. -/
lemma append [DecidableEq ι] (h : Linked prev next first last order) {x : ι} (hx : x ∉ order)
    (hpx : prev' x = last) (hnx : next' x = none)
    (hp : ∀ y ∈ order, prev' y = prev y)
    (hn : ∀ y ∈ order, next' y = if last = some y then some x else next y) :
    Linked prev' next' (if last = none then some x else first) (some x) (order ++ [x]) where
  nodup := by
    rw [List.nodup_append]
    refine ⟨h.nodup, by simp, ?_⟩
    rintro a ha b hb rfl
    rw [List.mem_singleton] at hb
    exact hx (hb ▸ ha)
  first_eq := by
    rw [h.last_eq, h.first_eq]
    cases order <;> simp
  last_eq := by simp
  neighbours := by
    intro l y r e
    rcases List.eq_nil_or_concat r with rfl | ⟨r', z, rfl⟩
    · have he : order = l ∧ x = y := by
        have := List.append_inj' (e : order ++ [x] = l ++ [y]) rfl
        simpa using this
      obtain ⟨rfl, rfl⟩ := he
      rw [hpx, hnx, h.last_eq]
      exact ⟨rfl, rfl⟩
    · have he : order = l ++ y :: r' ∧ x = z := by
        have e' : order ++ [x] = (l ++ y :: r') ++ [z] := by simpa using e
        have := List.append_inj' e' rfl
        simpa using this
      obtain ⟨ho, rfl⟩ := he
      have hy : y ∈ order := by rw [ho]; simp
      obtain ⟨h1, h2⟩ := h.neighbours l y r' ho
      rw [hp y hy, hn y hy, h1, h.last_eq, ho]
      refine ⟨rfl, ?_⟩
      rcases List.eq_nil_or_concat r' with rfl | ⟨r'', w, rfl⟩
      · simp
      · have hw : w ≠ y := by
          rintro rfl
          have := h.nodup
          rw [ho] at this
          simp [List.nodup_append] at this
        have hlast : (l ++ y :: r''.concat w).getLast? = some w := by
          have : l ++ y :: r''.concat w = (l ++ y :: r'') ++ [w] := by simp
          rw [this, List.getLast?_append]
          simp
        rw [hlast, if_neg (by simpa using hw), h2]
        cases r'' <;> simp

/-- Elements of a list without repetition split it in one way. -/
lemma not_mem_of_split (hn : order.Nodup) {l r : List ι} {x : ι} (e : order = l ++ x :: r) :
    x ∉ l ∧ x ∉ r ∧ ∀ y, y ∈ l → y ∉ r := by
  subst e
  rw [List.nodup_append, List.nodup_cons] at hn
  obtain ⟨_, ⟨hxr, _⟩, hd⟩ := hn
  refine ⟨fun hx => hd x hx x (by simp) rfl, hxr, fun y hy hr => hd y hy y (by simp [hr]) rfl⟩

/-- An element leaves from anywhere; its neighbours are joined. -/
lemma remove [DecidableEq ι] (h : Linked prev next first last order) {l r : List ι} {x : ι}
    (e : order = l ++ x :: r)
    (hp : ∀ y ∈ l ++ r, prev' y = if next x = some y then prev x else prev y)
    (hn : ∀ y ∈ l ++ r, next' y = if prev x = some y then next x else next y) :
    Linked prev' next' (if prev x = none then next x else first)
      (if next x = none then prev x else last) (l ++ r) where
  nodup := by
    have := h.nodup
    rw [e] at this
    exact this.sublist (by simp)
  first_eq := by
    obtain ⟨h1, h2⟩ := h.neighbours l x r e
    rw [h1, h2, h.first_eq, e]
    cases l with
    | nil => simp
    | cons a l => simp
  last_eq := by
    obtain ⟨h1, h2⟩ := h.neighbours l x r e
    rw [h1, h2, h.last_eq, e]
    cases r with
    | nil => simp
    | cons b r => simp [List.getLast?_append]
  neighbours := by
    intro m y n e'
    obtain ⟨h1, h2⟩ := h.neighbours l x r e
    obtain ⟨hxl, hxr, hlr⟩ := not_mem_of_split h.nodup e
    have hy : y ∈ l ++ r := by rw [e']; simp
    rw [hp y hy, hn y hy, h1, h2]
    -- `y` stands in `r` (after the hole) or in `l` (before it).
    rcases List.append_eq_append_iff.1 e' with ⟨a, rfl, hr⟩ | ⟨c, hl, hc⟩
    · have hyr : y ∈ r := by rw [hr]; simp
      have hyl : y ∉ l := fun hy' => hlr y hy' hyr
      obtain ⟨g1, g2⟩ := h.neighbours (l ++ x :: a) y n (by rw [e, hr]; simp)
      have hlast : l.getLast? ≠ some y := fun hh => hyl (List.mem_of_getLast? hh)
      rw [if_neg hlast, g2]
      refine ⟨?_, rfl⟩
      cases a with
      | nil => simp [hr]
      | cons b a =>
          have hb : b ≠ y := by
            rintro rfl
            have hnd := h.nodup
            rw [e, hr, List.nodup_append, List.nodup_cons] at hnd
            have := hnd.2.1.2
            simp at this
          have hhead : r.head? ≠ some y := by rw [hr]; simpa using hb
          rw [if_neg hhead, g1]
          simp [List.getLast?_append]
    · cases c with
      | nil =>
          simp only [List.nil_append] at hc
          subst hc
          simp only [List.append_nil] at hl
          subst hl
          have hyl : y ∉ l := fun hy' => hlr y hy' (by simp)
          have hlast : l.getLast? ≠ some y := fun hh => hyl (List.mem_of_getLast? hh)
          obtain ⟨-, g2⟩ := h.neighbours (l ++ [x]) y n (by rw [e]; simp)
          simp [hlast, g2]
      | cons b c =>
          simp only [List.cons_append, List.cons.injEq] at hc
          obtain ⟨rfl, rfl⟩ := hc
          have hyl : y ∈ l := by rw [hl]; simp
          have hyr : y ∉ r := hlr y hyl
          have hhead : r.head? ≠ some y := fun hh => hyr (List.mem_of_mem_head? hh)
          obtain ⟨g1, g2⟩ := h.neighbours m y (c ++ x :: r) (by rw [e, hl]; simp)
          rw [if_neg hhead, g1]
          refine ⟨rfl, ?_⟩
          rcases List.eq_nil_or_concat c with rfl | ⟨c', w, rfl⟩
          · simp [hl]
          · have hw : w ≠ y := by
              rintro rfl
              have hnd := h.nodup
              rw [e, hl] at hnd
              simp [List.nodup_append] at hnd
            have hlast : l.getLast? = some w := by
              have hs : l = (m ++ y :: c') ++ [w] := by rw [hl]; simp
              rw [hs, List.getLast?_append]
              simp
            rw [hlast, if_neg (by simpa using hw), g2]
            cases c' <;> simp

end Linked
