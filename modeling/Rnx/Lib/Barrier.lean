import Mathlib.Data.List.Infix
import Mathlib.Tactic.Common

/-!
# Finding a marker in a stream that arrives in pieces

A reader that looks for a marker keeps back the part of the stream that could still turn out to be
the beginning of one, and lets the rest go.  What it may let go is settled by the longest suffix
that is a proper prefix of the marker: an occurrence that starts before it would have to end before
the pieces still to come.

`Held m stream kept pending` is what such a reader has after a piece without the marker in it.
Feeding it another piece either finds the first occurrence in the whole stream (`Held.found`) or
leaves it in the same shape (`Held.missed`), so where the pieces are cut makes no difference.
-/

namespace Barrier

variable {α : Type} {m l stream kept pending b : List α} {i n : Nat}

/-- `m` occurs in `l` at `i` and nowhere before. -/
structure FirstAt (m l : List α) (i : Nat) : Prop where
  occurs : m <+: l.drop i
  first : ∀ j < i, ¬ m <+: l.drop j

lemma FirstAt.unique {j : Nat} (hi : FirstAt m l i) (hj : FirstAt m l j) : i = j := by
  obtain hlt | heq | hgt := Nat.lt_trichotomy i j
  · exact absurd hi.occurs (hj.first i hlt)
  · exact heq
  · exact absurd hj.occurs (hi.first j hgt)

lemma FirstAt.le_length (h : FirstAt m l i) (hm : m ≠ []) : i + m.length ≤ l.length := by
  have hle := h.occurs.length_le
  have := List.length_pos_iff.2 hm
  rw [List.length_drop] at hle
  omega

/-- What follows the first occurrence does not move it. -/
lemma FirstAt.append (h : FirstAt m l i) (hm : m ≠ []) (b : List α) : FirstAt m (l ++ b) i := by
  have hle := h.le_length hm
  refine ⟨?_, ?_⟩
  · rw [List.drop_append_of_le_length (by omega)]
    exact h.occurs.trans (List.prefix_append _ _)
  · intro j hj hocc
    rw [List.drop_append_of_le_length (by omega)] at hocc
    apply h.first j hj
    apply List.prefix_of_prefix_length_le hocc (List.prefix_append _ _)
    rw [List.length_drop]
    omega

lemma FirstAt.isInfix (h : FirstAt m l i) : m <:+: l :=
  h.occurs.isInfix.trans (List.drop_suffix i l).isInfix

lemma not_isInfix (h : ∀ j, ¬ m <+: l.drop j) : ¬ m <:+: l := by
  rintro ⟨before, after, rfl⟩
  apply h before.length
  rw [List.append_assoc, List.drop_left]
  exact List.prefix_append m after

section Scan

variable [DecidableEq α]

/-! ## The first occurrence -/

/-- The position of the first window that equals `m`. -/
def position (m : List α) : List α → Option Nat
  | [] => none
  | x :: l => if m.isPrefixOf (x :: l) then some 0 else (position m l).map (· + 1)

/-- The scan finds the first occurrence. -/
lemma position_some (h : position m l = some i) : FirstAt m l i := by
  induction l generalizing i with
  | nil => cases h
  | cons x l ih =>
      unfold position at h
      split_ifs at h with hp
      · obtain rfl := Option.some.inj h
        exact ⟨List.isPrefixOf_iff_prefix.1 hp, fun j hj => absurd hj (Nat.not_lt_zero j)⟩
      · obtain ⟨k, hk, rfl⟩ := Option.map_eq_some_iff.1 h
        have hfirst := ih hk
        refine ⟨hfirst.occurs, ?_⟩
        intro j hj
        cases j with
        | zero => exact fun hpre => hp (List.isPrefixOf_iff_prefix.2 hpre)
        | succ j => exact hfirst.first j (by omega)

/-- Without a window that equals it, the marker does not occur. -/
lemma position_none (hm : m ≠ []) (h : position m l = none) : ∀ j, ¬ m <+: l.drop j := by
  induction l with
  | nil =>
      intro j hj
      rw [List.drop_nil] at hj
      exact hm (List.prefix_nil.1 hj)
  | cons x l ih =>
      unfold position at h
      split_ifs at h with hp
      have hrest := ih (Option.map_eq_none_iff.1 h)
      intro j
      cases j with
      | zero => exact fun hpre => hp (List.isPrefixOf_iff_prefix.2 hpre)
      | succ j => exact hrest j

/-! ## The longest proper prefix at the end -/

/-- The largest number up to the bound of initial elements of `m` that `l` ends with. -/
def endsWithin (m l : List α) : Nat → Nat
  | 0 => 0
  | n + 1 => if (m.take (n + 1)).isSuffixOf l then n + 1 else endsWithin m l n

/-- The length of the longest suffix of `l` that is a proper prefix of `m`. -/
def overlap (m l : List α) : Nat := endsWithin m l (min l.length (m.length - 1))

lemma endsWithin_le (m l : List α) (n : Nat) : endsWithin m l n ≤ n := by
  induction n with
  | zero => exact Nat.le_refl 0
  | succ n ih =>
      unfold endsWithin
      split_ifs
      · exact Nat.le_refl _
      · exact ih.trans (Nat.le_succ n)

lemma endsWithin_suffix (m l : List α) (n : Nat) : m.take (endsWithin m l n) <:+ l := by
  induction n with
  | zero => exact List.nil_suffix
  | succ n ih =>
      unfold endsWithin
      split_ifs with hs
      · exact List.isSuffixOf_iff_suffix.1 hs
      · exact ih

lemma le_endsWithin {k : Nat} (hk : k ≤ n) (hs : m.take k <:+ l) : k ≤ endsWithin m l n := by
  induction n with
  | zero => exact hk
  | succ n ih =>
      unfold endsWithin
      split_ifs with hn
      · exact hk
      · apply ih
        rcases Nat.lt_or_eq_of_le hk with hlt | rfl
        · exact Nat.lt_succ_iff.1 hlt
        · exact absurd (List.isSuffixOf_iff_suffix.2 hs) hn

lemma overlap_le (m l : List α) : overlap m l ≤ l.length :=
  (endsWithin_le _ _ _).trans (Nat.min_le_left _ _)

lemma overlap_lt (hm : m ≠ []) : overlap m l < m.length := by
  have hle : overlap m l ≤ m.length - 1 := (endsWithin_le _ _ _).trans (Nat.min_le_right _ _)
  have := List.length_pos_iff.2 hm
  omega

lemma drop_overlap (hm : m ≠ []) : l.drop (l.length - overlap m l) = m.take (overlap m l) := by
  have hs : m.take (overlap m l) <:+ l := endsWithin_suffix _ _ _
  have hlen : (m.take (overlap m l)).length = overlap m l := by
    rw [List.length_take]
    have := overlap_lt (l := l) hm
    omega
  rw [List.suffix_iff_eq_drop.1 hs, hlen]

end Scan

/-- A prefix of the marker that ends a stream and the piece after it begins in the stream. -/
lemma suffix_of_append {k : Nat} (hk : (m.take k).length = k) (hs : m.take k <:+ stream ++ b)
    (hle : b.length ≤ k) : m.take (k - b.length) <:+ stream := by
  have hlong := hs.length_le
  rw [hk, List.length_append] at hlong
  have hdrop : m.take k = stream.drop (stream.length + b.length - k) ++ b := by
    have heq := List.suffix_iff_eq_drop.1 hs
    rw [hk, List.length_append, List.drop_append_of_le_length (by omega)] at heq
    exact heq
  have hlen : (stream.drop (stream.length + b.length - k)).length = k - b.length := by
    rw [List.length_drop]
    omega
  have htake : m.take (k - b.length) = stream.drop (stream.length + b.length - k) := by
    have := congrArg (List.take (k - b.length)) hdrop
    rw [List.take_take, Nat.min_eq_left (Nat.sub_le _ _), ← hlen, List.take_left] at this
    rw [← hlen]
    exact this
  rw [htake]
  exact List.drop_suffix _ stream

/-! ## What the reader keeps back -/

/-- The reader has seen `stream` without the marker in it, has let `kept` go and keeps `pending`
back, the longest suffix that may begin a marker. -/
structure Held (m stream kept pending : List α) : Prop where
  split : kept ++ pending = stream
  absent : ∀ j, ¬ m <+: stream.drop j
  proper : pending <+: m
  short : pending.length < m.length
  longest : ∀ n < m.length, m.take n <:+ stream → n ≤ pending.length

lemma Held.nil (hm : m ≠ []) : Held m [] [] [] where
  split := rfl
  absent j hj := by
    rw [List.drop_nil] at hj
    exact hm (List.prefix_nil.1 hj)
  proper := List.nil_prefix
  short := List.length_pos_iff.2 hm
  longest n hn hs := by
    have := hs.length_le
    rw [List.length_take] at this
    omega

/-- An occurrence that starts in what was let go would have ended there, or would have begun in
what is kept back. -/
lemma Held.not_before (h : Held m stream kept pending) {j : Nat} (hj : j < kept.length) :
    ¬ m <+: (stream ++ b).drop j := by
  intro hocc
  have hle : j ≤ stream.length := by
    rw [← h.split, List.length_append]
    omega
  rw [List.drop_append_of_le_length hle] at hocc
  by_cases hlong : m.length ≤ (stream.drop j).length
  · exact h.absent j (List.prefix_of_prefix_length_le hocc (List.prefix_append _ _) hlong)
  · -- the rest of the stream is a proper prefix of the marker, so it is kept back
    have hpre : stream.drop j <+: m :=
      List.prefix_of_prefix_length_le (List.prefix_append _ _) hocc (by omega)
    have htake : m.take (stream.drop j).length = stream.drop j :=
      (List.prefix_iff_eq_take.1 hpre).symm
    have hlongest := h.longest (stream.drop j).length (by omega)
      (by rw [htake]; exact List.drop_suffix j stream)
    rw [← h.split, List.length_drop, List.length_append] at hlongest
    omega

lemma Held.drop (h : Held m stream kept pending) (b : List α) (j : Nat) :
    (stream ++ b).drop (kept.length + j) = (pending ++ b).drop j := by
  rw [← h.split, List.append_assoc, List.drop_append]
  have hnil : kept.drop (kept.length + j) = [] := List.drop_eq_nil_of_le (Nat.le_add_right _ _)
  rw [hnil, List.nil_append, Nat.add_sub_cancel_left]

section Feed

variable [DecidableEq α]

/-- The first occurrence in what is kept back and the new piece is the first in the stream. -/
lemma Held.found (h : Held m stream kept pending) (hpos : position m (pending ++ b) = some i) :
    FirstAt m (stream ++ b) (kept.length + i) := by
  have hfirst := position_some hpos
  refine ⟨?_, ?_⟩
  · rw [h.drop]
    exact hfirst.occurs
  · intro j hj
    rcases Nat.lt_or_ge j kept.length with hlt | hge
    · exact h.not_before hlt
    · obtain ⟨k, rfl⟩ := Nat.exists_eq_add_of_le hge
      rw [h.drop]
      exact hfirst.first k (by omega)

/-- A piece that completes no marker leaves the reader with a new suffix kept back. -/
lemma Held.missed (hm : m ≠ []) (h : Held m stream kept pending)
    (hpos : position m (pending ++ b) = none)
    (hn : n = (pending ++ b).length - overlap m (pending ++ b)) :
    Held m (stream ++ b) (kept ++ (pending ++ b).take n) ((pending ++ b).drop n) := by
  have hdrop : (pending ++ b).drop n = m.take (overlap m (pending ++ b)) := by
    rw [hn]
    exact drop_overlap hm
  have hlen : ((pending ++ b).drop n).length = overlap m (pending ++ b) := by
    have := overlap_le m (pending ++ b)
    rw [List.length_drop, hn]
    omega
  refine ⟨?_, ?_, ?_, ?_, ?_⟩
  · rw [List.append_assoc, List.take_append_drop, ← List.append_assoc, h.split]
  · intro j
    rcases Nat.lt_or_ge j kept.length with hlt | hge
    · exact h.not_before hlt
    · obtain ⟨k, rfl⟩ := Nat.exists_eq_add_of_le hge
      rw [h.drop]
      exact position_none hm hpos k
  · rw [hdrop]
    exact List.take_prefix _ m
  · rw [hlen]
    exact overlap_lt hm
  · intro k hk hs
    rw [hlen]
    have hlen : (m.take k).length = k := by
      rw [List.length_take]
      omega
    rcases Nat.lt_or_ge (pending ++ b).length k with hlt | hge
    · -- a longer prefix would have been kept back before this piece
      exfalso
      have hlow : k - b.length ≤ pending.length := by
        apply h.longest _ (by omega)
        exact suffix_of_append hlen hs (by rw [List.length_append] at hlt; omega)
      rw [List.length_append] at hlt
      omega
    · have hwork : pending ++ b <:+ stream ++ b := by
        rw [← h.split, List.append_assoc]
        exact List.suffix_append kept _
      have hs' : m.take k <:+ pending ++ b :=
        List.suffix_of_suffix_length_le hs hwork (by omega)
      refine le_endsWithin (Nat.le_min.2 ⟨hge, ?_⟩) hs'
      omega

end Feed

end Barrier
