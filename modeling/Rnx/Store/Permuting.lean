import Rnx.Store.Sorting
import Mathlib.Data.Finset.Card
import Mathlib.Data.List.Perm.Subperm
import Mathlib.Logic.Equiv.Basic

/-!
# Applying a bank

A commit checks a bank by writing its inverse over the other bank, and then applies it by swapping:
as long as the inverse sends `dst` elsewhere, the elements of both places change sides, in the
inverse and in the buffer alike.  Every swap puts one index into its own place, so the loop ends;
and since both lists are swapped alike, an element keeps the index it is paired with.
-/

namespace Rnx

variable {α : Type} {len dst i j k : Nat} {bank inverse : List Nat} {values : List Value}

/-! ## Swapping -/

lemma swapAt_getElem? {l : List α} (hi : i < l.length) (hj : j < l.length) (k : Nat) :
    (swapAt l i j)[k]? = l[Equiv.swap i j k]? := by
  unfold swapAt
  rw [List.getElem?_eq_getElem hi, List.getElem?_eq_getElem hj]
  simp only [List.getElem?_set, List.length_set, Equiv.swap_apply_def]
  by_cases hki : k = i
  · subst hki
    by_cases hkj : j = k
    · simp [hkj, hi]
    · simp [hkj, hi, hj]
  · by_cases hkj : k = j
    · subst hkj
      simp [hki, hj, hi]
    · simp [Ne.symm hki, Ne.symm hkj, hki, hkj]

/-- The value `v` stands where the list of indices has `a`. -/
def Labels (indices : List Nat) (values : List Value) (a : Nat) (v : Value) : Prop :=
  ∃ i : Nat, indices[i]? = some a ∧ values[i]? = some v

/-- Swapping both lists alike leaves every value its index. -/
lemma labels_swapAt (hlen : values.length = inverse.length) (hi : i < inverse.length)
    (hj : j < inverse.length) (a : Nat) (v : Value) :
    Labels (swapAt inverse i j) (swapAt values i j) a v ↔ Labels inverse values a v := by
  unfold Labels
  have hpair : ∀ k : Nat, ((swapAt inverse i j)[k]? = some a ∧ (swapAt values i j)[k]? = some v) ↔
      inverse[Equiv.swap i j k]? = some a ∧ values[Equiv.swap i j k]? = some v := by
    intro k
    rw [swapAt_getElem? hi hj, swapAt_getElem? (hlen ▸ hi) (hlen ▸ hj)]
  constructor
  · rintro ⟨k, hk⟩
    exact ⟨_, (hpair k).1 hk⟩
  · rintro ⟨k, hk⟩
    refine ⟨Equiv.swap i j k, (hpair _).2 ?_⟩
    rw [Equiv.swap_apply_self]
    exact hk

/-! ## Following a cycle -/

/-- What the loops do to a permutation and a buffer. -/
structure Moved (len : Nat) (inverse : List Nat) (values : List Value) (inverse' : List Nat)
    (values' : List Value) : Prop where
  perm : inverse'.Perm (List.range len)
  length : values'.length = len
  fixed : ∀ i : Nat, inverse[i]? = some i → inverse'[i]? = some i
  labels : ∀ a v, Labels inverse' values' a v ↔ Labels inverse values a v

lemma Moved.refl (hperm : inverse.Perm (List.range len)) (hlen : values.length = len) :
    Moved len inverse values inverse values :=
  ⟨hperm, hlen, fun _ h => h, fun _ _ => .rfl⟩

lemma Moved.trans {inverse' inverse'' : List Nat} {values' values'' : List Value}
    (h : Moved len inverse values inverse' values')
    (h' : Moved len inverse' values' inverse'' values'') :
    Moved len inverse values inverse'' values'' :=
  ⟨h'.perm, h'.length, fun i hi => h'.fixed i (h.fixed i hi),
    fun a v => (h'.labels a v).trans (h.labels a v)⟩

/-- The places whose index is another one. -/
def unsettled (len : Nat) (inverse : List Nat) : Finset Nat :=
  (Finset.range len).filter fun i => inverse[i]? ≠ some i

lemma card_unsettled_le (len : Nat) (inverse : List Nat) : (unsettled len inverse).card ≤ len := by
  have := Finset.card_filter_le (Finset.range len) fun i => inverse[i]? ≠ some i
  rwa [Finset.card_range] at this

/-- A place is fixed, or its index is that of no place that is. -/
lemma ne_of_settled (hperm : inverse.Perm (List.range len)) (hj : inverse[j]? = some j)
    (hd : inverse[dst]? = some i) (hne : i ≠ dst) : j ≠ dst ∧ j ≠ i := by
  have hnodup : inverse.Nodup := hperm.nodup_iff.2 List.nodup_range
  constructor
  · rintro rfl
    rw [hj] at hd
    exact hne (Option.some.inj hd).symm
  · rintro rfl
    obtain ⟨hlt, -⟩ := List.getElem?_eq_some_iff.1 hj
    have := (List.getElem?_inj hlt hnodup).1 (hj.trans hd.symm)
    exact hne this

/-- One swap settles the place its index names, and unsettles none. -/
lemma swap_settles {next : Nat} (hperm : inverse.Perm (List.range len))
    (hlen : values.length = len) (hd : inverse[dst]? = some next) (hne : next ≠ dst) :
    Moved len inverse values (swapAt inverse dst next) (swapAt values dst next) ∧
      (unsettled len (swapAt inverse dst next)).card < (unsettled len inverse).card := by
  have hinv : inverse.length = len := by rw [hperm.length_eq, List.length_range]
  have hdst : dst < inverse.length := (List.getElem?_eq_some_iff.1 hd).1
  have hnext : next < inverse.length := by
    rw [hinv]
    exact List.mem_range.1 (hperm.subset (List.mem_of_getElem? hd))
  have hfixed : ∀ i : Nat, inverse[i]? = some i → (swapAt inverse dst next)[i]? = some i := by
    intro i hi
    obtain ⟨h1, h2⟩ := ne_of_settled hperm hi hd hne
    rw [swapAt_getElem? hdst hnext, Equiv.swap_apply_of_ne_of_ne h1 h2]
    exact hi
  have hself : (swapAt inverse dst next)[next]? = some next := by
    rw [swapAt_getElem? hdst hnext, Equiv.swap_apply_right]
    exact hd
  refine ⟨⟨(swapAt_perm _ _ _).trans hperm, ?_, hfixed, labels_swapAt (hlen.trans hinv.symm) hdst hnext⟩,
    Finset.card_lt_card ⟨?_, ?_⟩⟩
  · rw [(swapAt_perm _ _ _).length_eq]
    exact hlen
  · intro i hi
    obtain ⟨hi, hun⟩ := Finset.mem_filter.1 hi
    exact Finset.mem_filter.2 ⟨hi, fun h => hun (hfixed i h)⟩
  · intro hsub
    have hmem : next ∈ unsettled len inverse :=
      Finset.mem_filter.2 ⟨Finset.mem_range.2 (hinv ▸ hnext),
        fun h => (ne_of_settled hperm h hd hne).2 rfl⟩
    exact (Finset.mem_filter.1 (hsub hmem)).2 hself

/-- The inner loop ends: it leaves `dst` with its own index. -/
lemma followCycle_settles (fuel : Nat) (hperm : inverse.Perm (List.range len))
    (hlen : values.length = len) (hdst : dst < len)
    (hfuel : (unsettled len inverse).card < fuel) :
    Moved len inverse values (followCycle fuel dst inverse values).1
        (followCycle fuel dst inverse values).2 ∧
      (followCycle fuel dst inverse values).1[dst]? = some dst := by
  induction fuel generalizing inverse values with
  | zero => exact absurd hfuel (Nat.not_lt_zero _)
  | succ fuel ih =>
      have hlt : dst < inverse.length := by rwa [hperm.length_eq, List.length_range]
      unfold followCycle
      rw [List.getElem?_eq_getElem hlt]
      dsimp only
      split_ifs with hnext
      · exact ⟨.refl hperm hlen, List.getElem?_eq_some_iff.2 ⟨hlt, hnext⟩⟩
      · obtain ⟨hmoved, hless⟩ := swap_settles hperm hlen (List.getElem?_eq_getElem hlt) hnext
        obtain ⟨hrest, hself⟩ := ih hmoved.perm hmoved.length (by omega)
        exact ⟨hmoved.trans hrest, hself⟩

/-- More fuel than the number of places changes nothing. -/
lemma followCycle_fuel {fuel fuel' : Nat} (dst : Nat) (hperm : inverse.Perm (List.range len))
    (hlen : values.length = len) (hfuel : (unsettled len inverse).card < fuel)
    (hle : fuel ≤ fuel') :
    followCycle fuel' dst inverse values = followCycle fuel dst inverse values := by
  induction fuel generalizing inverse values fuel' with
  | zero => exact absurd hfuel (Nat.not_lt_zero _)
  | succ fuel ih =>
      obtain ⟨fuel', rfl⟩ : ∃ n, fuel' = n + 1 := ⟨fuel' - 1, by omega⟩
      unfold followCycle
      rcases hd : inverse[dst]? with _ | next
      · rfl
      · dsimp only
        split_ifs with hnext
        · rfl
        · obtain ⟨hmoved, hless⟩ := swap_settles hperm hlen hd hnext
          exact ih hmoved.perm hmoved.length (by omega) (by omega)

/-- The outer loop settles every place it visits. -/
lemma applyInverse_settles {n : Nat} (dst : Nat) (hperm : inverse.Perm (List.range len))
    (hlen : values.length = len) (hn : dst + n = len)
    (hdone : ∀ i < dst, inverse[i]? = some i) :
    Moved len inverse values (applyInverse len n dst inverse values).1
        (applyInverse len n dst inverse values).2 ∧
      ∀ i < len, (applyInverse len n dst inverse values).1[i]? = some i := by
  induction n generalizing dst inverse values with
  | zero => exact ⟨.refl hperm hlen, fun i hi => hdone i (by omega)⟩
  | succ n ih =>
      have hcard := card_unsettled_le len inverse
      obtain ⟨hmoved, hself⟩ := followCycle_settles (len + 1) hperm hlen
        (show dst < len by omega) (by omega)
      have hnext : ∀ i < dst + 1, (followCycle (len + 1) dst inverse values).1[i]? = some i := by
        intro i hi
        obtain hi | rfl := Nat.lt_succ_iff_lt_or_eq.1 hi
        · exact hmoved.fixed i (hdone i hi)
        · exact hself
      obtain ⟨hrest, hall⟩ := ih (dst + 1) hmoved.perm hmoved.length (by omega) hnext
      exact ⟨hmoved.trans hrest, hall⟩

/-! ## The inverse of a bank -/

/-- What the first `dst` steps of an inversion have written. -/
structure Inverts (len : Nat) (bank : List Nat) (dst : Nat) (inverse : List Nat) : Prop where
  length : inverse.length = len
  inRange : ∀ d < dst, ∃ src : Nat, bank[d]? = some src ∧ src < len
  written : ∀ d src : Nat, d < dst → bank[d]? = some src → inverse[src]? = some d
  source : ∀ src d : Nat, inverse[src]? = some d → d ≠ usizeMax → d < dst ∧ bank[d]? = some src

lemma inverts_start (len : Nat) (bank : List Nat) :
    Inverts len bank 0 (List.replicate len usizeMax) where
  length := List.length_replicate
  inRange := fun d hd => absurd hd (Nat.not_lt_zero d)
  written := fun d src hd _ => absurd hd (Nat.not_lt_zero d)
  source := by
    intro src d hd hne
    exact absurd (List.eq_of_mem_replicate (List.mem_of_getElem? hd)) hne

/-- One index written. -/
lemma Inverts.step {src : Nat} (h : Inverts len bank dst inverse) (hdst : dst < usizeMax)
    (hb : bank[dst]? = some src) (hlt : src < len) (hfree : inverse[src]? = some usizeMax) :
    Inverts len bank (dst + 1) (inverse.set src dst) := by
  have hsrc : src < inverse.length := by rwa [h.length]
  constructor
  · rw [List.length_set]
    exact h.length
  · intro d hd
    obtain hd | rfl := Nat.lt_succ_iff_lt_or_eq.1 hd
    · exact h.inRange d hd
    · exact ⟨src, hb, hlt⟩
  · intro d src' hd hb'
    by_cases heq : src = src'
    · subst heq
      obtain hd | rfl := Nat.lt_succ_iff_lt_or_eq.1 hd
      · have hold := h.written d src hd hb'
        rw [hfree] at hold
        have := Option.some.inj hold
        omega
      · exact List.getElem?_set_self hsrc
    · rw [List.getElem?_set_ne heq]
      obtain hd | rfl := Nat.lt_succ_iff_lt_or_eq.1 hd
      · exact h.written d src' hd hb'
      · rw [hb] at hb'
        exact absurd (Option.some.inj hb') heq
  · intro src' d hd hne
    by_cases heq : src = src'
    · subst heq
      rw [List.getElem?_set_self hsrc] at hd
      obtain rfl := Option.some.inj hd
      exact ⟨Nat.lt_succ_self _, hb⟩
    · rw [List.getElem?_set_ne heq] at hd
      obtain ⟨hlt, hb'⟩ := h.source src' d hd hne
      exact ⟨Nat.lt_succ_of_lt hlt, hb'⟩

/-- An inversion that succeeds has written the inverse of the whole bank. -/
lemma invert_valid {n : Nat} (h : Inverts len bank dst inverse) (hn : dst + n = len)
    (hlen : len ≤ usizeMax) (hvalid : (invert len bank n dst inverse).1 = true) :
    Inverts len bank len (invert len bank n dst inverse).2 := by
  induction n generalizing dst inverse with
  | zero =>
      obtain rfl : dst = len := hn
      exact h
  | succ n ih =>
      unfold invert at hvalid ⊢
      rcases hb : bank[dst]? with _ | src
      · rw [hb] at hvalid
        cases hvalid
      · rw [hb] at hvalid
        dsimp only at hvalid ⊢
        split_ifs at hvalid ⊢ with hbad
        simp only [not_or, not_le, ge_iff_le, ne_eq, not_not] at hbad
        exact ih (h.step (by omega) hb hbad.1 hbad.2) (by omega) hvalid

/-- An inversion of a permutation succeeds. -/
lemma invert_perm {n : Nat} (h : Inverts len bank dst inverse) (hn : dst + n = len)
    (hlen : len ≤ usizeMax) (hperm : bank.Perm (List.range len)) :
    (invert len bank n dst inverse).1 = true := by
  have hnodup : bank.Nodup := hperm.nodup_iff.2 List.nodup_range
  induction n generalizing dst inverse with
  | zero => rfl
  | succ n ih =>
      have hdst : dst < bank.length := by
        rw [hperm.length_eq, List.length_range]
        omega
      have hb : bank[dst]? = some bank[dst] := List.getElem?_eq_getElem hdst
      have hlt : bank[dst] < len := List.mem_range.1 (hperm.subset (List.getElem_mem hdst))
      have hsrc : bank[dst] < inverse.length := by rwa [h.length]
      have hfree : inverse[bank[dst]]? = some usizeMax := by
        by_contra hne
        obtain ⟨hd, hbd⟩ := h.source bank[dst] inverse[bank[dst]] (List.getElem?_eq_getElem hsrc)
          fun heq => hne (by rw [List.getElem?_eq_getElem hsrc, heq])
        have := (List.getElem?_inj hdst hnodup).1 (hb.trans hbd.symm)
        omega
      unfold invert
      rw [hb]
      dsimp only
      rw [if_neg]
      · exact ih (h.step (by omega) hb hlt hfree) (by omega)
      · rintro (hge | hne)
        · omega
        · exact hne hfree

lemma perm_range_of_nodup {l : List Nat} (hnodup : l.Nodup) (hlen : l.length = len)
    (hlt : ∀ a ∈ l, a < len) : l.Perm (List.range len) := by
  have hsub : l ⊆ List.range len := fun a ha => List.mem_range.2 (hlt a ha)
  refine (List.subperm_of_subset hnodup hsub).perm_of_length_le ?_
  rw [hlen, List.length_range]

/-- A bank with an inverse is a permutation. -/
lemma Inverts.bank_perm (h : Inverts len bank len inverse) (hbank : bank.length = len) :
    bank.Perm (List.range len) := by
  refine perm_range_of_nodup ?_ hbank ?_
  · rw [List.nodup_iff_getElem?_ne_getElem?]
    intro i j hij hj heq
    rw [List.getElem?_eq_getElem hj] at heq
    have h1 := h.written i _ (by omega) heq
    have h2 := h.written j _ (by omega) (List.getElem?_eq_getElem hj)
    rw [h1] at h2
    have := Option.some.inj h2
    omega
  · intro a ha
    obtain ⟨d, hd⟩ := List.mem_iff_getElem?.1 ha
    obtain ⟨hlt, -⟩ := List.getElem?_eq_some_iff.1 hd
    obtain ⟨src, hsrc, hsrclt⟩ := h.inRange d (by omega)
    rw [hd] at hsrc
    obtain rfl := Option.some.inj hsrc
    exact hsrclt

/-- The inverse of a bank is a permutation. -/
lemma Inverts.inverse_perm (h : Inverts len bank len inverse) (hbank : bank.length = len) :
    inverse.Perm (List.range len) := by
  have hperm := h.bank_perm hbank
  have hplace : ∀ src < len, ∃ d : Nat, bank[d]? = some src ∧ inverse[src]? = some d ∧ d < len := by
    intro src hsrc
    obtain ⟨d, hd⟩ := List.mem_iff_getElem?.1 (hperm.mem_iff.2 (List.mem_range.2 hsrc))
    obtain ⟨hlt, -⟩ := List.getElem?_eq_some_iff.1 hd
    exact ⟨d, hd, h.written d src (by omega) hd, by omega⟩
  refine perm_range_of_nodup ?_ h.length ?_
  · rw [List.nodup_iff_getElem?_ne_getElem?]
    intro i j hij hj heq
    rw [h.length] at hj
    obtain ⟨d, hd, hi, -⟩ := hplace i (by omega)
    obtain ⟨d', hd', hj, -⟩ := hplace j hj
    rw [hi, hj] at heq
    obtain rfl := Option.some.inj heq
    rw [hd] at hd'
    have := Option.some.inj hd'
    omega
  · intro a ha
    obtain ⟨src, hsrc⟩ := List.mem_iff_getElem?.1 ha
    obtain ⟨hlt, -⟩ := List.getElem?_eq_some_iff.1 hsrc
    obtain ⟨d, -, hd, hdlt⟩ := hplace src (by rwa [h.length] at hlt)
    rw [hsrc] at hd
    obtain rfl := Option.some.inj hd
    exact hdlt

/-- Applying the inverse of a bank puts the element the bank names into every place. -/
lemma applyInverse_permutes (hinv : Inverts len bank len inverse) (hbank : bank.length = len)
    (hlen : values.length = len) {d src : Nat} (hd : bank[d]? = some src) :
    (applyInverse len len 0 inverse values).2[d]? = values[src]? := by
  obtain ⟨hmoved, hall⟩ := applyInverse_settles 0 (hinv.inverse_perm hbank) hlen
    (Nat.zero_add len) fun i hi => absurd hi (Nat.not_lt_zero i)
  obtain ⟨hlt, -⟩ := List.getElem?_eq_some_iff.1 hd
  obtain ⟨src', hsrc', hsrclt⟩ := hinv.inRange d (by omega)
  rw [hd] at hsrc'
  obtain rfl := Option.some.inj hsrc'
  have hvalue : values[src]? = some values[src] := List.getElem?_eq_getElem (by omega)
  have hlabel : Labels inverse values d values[src] :=
    ⟨src, hinv.written d src (by omega) hd, hvalue⟩
  obtain ⟨i, hi, hv⟩ := (hmoved.labels d _).2 hlabel
  obtain ⟨hilt, -⟩ := List.getElem?_eq_some_iff.1 hv
  rw [hmoved.length] at hilt
  rw [hall i hilt] at hi
  obtain rfl := Option.some.inj hi
  rw [hv, hvalue]

end Rnx
