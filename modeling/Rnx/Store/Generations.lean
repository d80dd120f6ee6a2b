import Rnx.Lib.Within
import Rnx.Store.Retire

/-!
# The generations of the slots

What the store says about the age of a handle: the generation of its slot, whether an entry sits
there, and whether the slot is on the free list.  A handle is spent when its slot has moved on to a
later generation, or has been retired in its generation.  No step of the store makes a spent handle
live again, and a live one that stops being live is spent.

Only three steps touch these marks: a publication occupies a free or a fresh slot, a retirement
vacates one, and a failed admission takes a fresh slot back.
-/

namespace Rnx

open ErrState (get update fail read attempt ofExcept guardWith Within)

namespace Store

variable {s t u : Store} {h k : Handle} {e : Entry} {i g : Nat}

/-! ## Marks -/

/-- The generation of every slot, and whether an entry sits in it. -/
def marks (s : Store) : List (Nat × Bool) :=
  s.slots.map fun sl => (sl.generation, sl.entry.isSome)

/-- The free slots are vacant and listed once, and generations fit their width. -/
structure Sane (s : Store) : Prop where
  nodup : s.free.Nodup
  vacant : ∀ i ∈ s.free, ∃ g, s.marks[i]? = some (g, false)
  bounded : ∀ m ∈ s.marks, m.1 ≤ u32Max

/-- The slot of the handle has moved on, or it was retired in the generation of the handle. -/
def Spent (s : Store) (h : Handle) : Prop :=
  ∃ g b, s.marks[h.slot]? = some (g, b) ∧
    (h.generation < g ∨ (g = h.generation ∧ b = false ∧ h.slot ∉ s.free))

/-- From a sane store to a sane one: the live handles stay live or are spent, and the spent ones
stay spent. -/
structure Ages (s t : Store) : Prop where
  sane : Sane t
  live : ∀ h, (s.at? h).isSome → (t.at? h).isSome ∨ Spent t h
  spent : ∀ h, Spent s h → Spent t h

/-- The marks and the free list are the same. -/
def Steady (s t : Store) : Prop := t.marks = s.marks ∧ t.free = s.free

/-- What every computation on a sane store does to the handles. -/
def Aging (s t : Store) : Prop := Sane s → Ages s t

lemma marks_getElem? (s : Store) (i : Nat) :
    s.marks[i]? = s.slots[i]?.map fun sl => (sl.generation, sl.entry.isSome) := by
  unfold marks
  rw [List.getElem?_map]

/-- A handle is live when its slot is occupied in its generation. -/
lemma at?_isSome : (s.at? h).isSome ↔ s.marks[h.slot]? = some (h.generation, true) := by
  rw [marks_getElem?]
  unfold at? cell
  cases hsl : s.slots[h.slot]? with
  | none => simp
  | some sl =>
      obtain ⟨generation, entry⟩ := sl
      cases entry with
      | none => simp
      | some x =>
          by_cases hg : generation = h.generation
          · simp [hg]
          · have hne : (⟨h.slot, generation⟩ : Handle) ≠ h := by
              intro heq
              apply hg
              rw [← heq]
            simp [hg, hne]

/-- A spent handle is not live, and what lives in its slot is of a later generation. -/
lemma Spent.later (hs : Spent s h) (hk : (s.at? k).isSome) (hslot : k.slot = h.slot) :
    h.generation < k.generation := by
  obtain ⟨g, b, hmark, hlater⟩ := hs
  rw [at?_isSome, hslot, hmark] at hk
  obtain ⟨rfl, rfl⟩ := Prod.mk.inj (Option.some.inj hk)
  obtain hlater | ⟨_, hb, _⟩ := hlater
  · exact hlater
  · cases hb

lemma Spent.at? (hs : Spent s h) : s.at? h = none := by
  cases hh : s.at? h with
  | none => rfl
  | some e =>
      have := hs.later (k := h) (by rw [hh]; rfl) rfl
      omega

instance : IsPreorder Store Steady where
  refl _ := ⟨rfl, rfl⟩
  trans _ _ _ h h' := ⟨h'.1.trans h.1, h'.2.trans h.2⟩

lemma Ages.trans (hst : Ages s t) (htu : Ages t u) : Ages s u := by
  constructor
  · exact htu.sane
  · intro h hh
    obtain hh | hh := hst.live h hh
    · exact htu.live h hh
    · exact .inr (htu.spent h hh)
  · intro h hh
    exact htu.spent h (hst.spent h hh)

lemma Steady.ages (h : Steady s t) (hs : Sane s) : Ages s t := by
  obtain ⟨hmarks, hfree⟩ := h
  constructor
  · constructor
    · rw [hfree]
      exact hs.nodup
    · rw [hfree, hmarks]
      exact hs.vacant
    · rw [hmarks]
      exact hs.bounded
  · intro k hk
    rw [at?_isSome] at hk ⊢
    rw [hmarks]
    exact .inl hk
  · intro k hk
    unfold Spent
    rw [hmarks, hfree]
    exact hk

instance : IsPreorder Store Aging where
  refl s hs := Steady.ages (refl_of Steady s) hs
  trans _ _ _ hst htu hs := (hst hs).trans (htu (hst hs).sane)

/-! ## The steps that leave the marks alone -/

lemma marks_modify (s : Store) (i : Nat) (f : Entry → Entry) : (s.modify i f).marks = s.marks := by
  apply List.ext_getElem?
  intro j
  rw [marks_getElem?, marks_getElem?]
  simp only [modify, List.getElem?_modify]
  cases s.slots[j]? with
  | none => rfl
  | some sl => by_cases hj : i = j <;> simp [hj]

lemma steady_modify (s : Store) (i : Nat) (f : Entry → Entry) : Steady s (s.modify i f) :=
  ⟨marks_modify s i f, rfl⟩

lemma steady_relinkNext (s : Store) (a b : Option Nat) : Steady s (s.relinkNext a b) := by
  unfold relinkNext
  cases a with
  | none => exact ⟨rfl, rfl⟩
  | some i => exact steady_modify s i _

lemma steady_relinkPrevious (s : Store) (a b : Option Nat) : Steady s (s.relinkPrevious a b) := by
  unfold relinkPrevious
  cases a with
  | none => exact ⟨rfl, rfl⟩
  | some i => exact steady_modify s i _

lemma steady_unlink (s : Store) (e : Entry) : Steady s (s.unlink e) :=
  trans_of Steady (steady_relinkNext s e.previous e.next) (steady_relinkPrevious _ e.next e.previous)

lemma steady_withLease (s : Store) (p : Payload) (readers : Option Nat) :
    Steady s (s.withLease p readers) := by
  unfold withLease
  split
  · exact steady_modify s _ _
  · exact ⟨rfl, rfl⟩

/-! ## Publishing and vacating -/

lemma marks_place (s : Store) (i : Nat) (e : Entry) :
    (s.place i e).marks = s.marks.modify i fun m => (m.1, true) := by
  apply List.ext_getElem?
  intro j
  rw [marks_getElem?, List.getElem?_modify, marks_getElem?]
  simp only [place, List.getElem?_modify]
  cases s.slots[j]? with
  | none => rfl
  | some sl => by_cases hj : i = j <;> simp [hj]

/-- A publication occupies its slot. -/
lemma marks_publish (s : Store) (i : Nat) (p : Payload) (a : Admitted) :
    (s.publish i p a).marks = s.marks.modify i fun m => (m.1, true) := by
  unfold publish
  show (relinkNext (place _ i _) _ _).marks = _
  rw [(steady_relinkNext _ _ _).1, marks_place, (steady_withLease s p a.readers).1]

lemma free_publish (s : Store) (i : Nat) (p : Payload) (a : Admitted) :
    (s.publish i p a).free = s.free := by
  unfold publish
  show (relinkNext (place _ i _) _ _).free = _
  rw [(steady_relinkNext _ _ _).2]
  exact (steady_withLease s p a.readers).2

/-- A slot of the free list is reused: no handle was live in it, and none that was spent is
spent no longer. -/
lemma ages_reuse {rest : List Nat} (hs : Sane s) (hfree : s.free = i :: rest)
    (hmarks : t.marks = s.marks.modify i fun m => (m.1, true)) (ht : t.free = rest) :
    Ages s t := by
  have hnodup := hs.nodup
  rw [hfree, List.nodup_cons] at hnodup
  obtain ⟨g, hvacant⟩ := hs.vacant i (by rw [hfree]; exact List.mem_cons_self)
  have hother : ∀ j, j ≠ i → t.marks[j]? = s.marks[j]? := by
    intro j hj
    rw [hmarks, List.getElem?_modify]
    simp [Ne.symm hj]
  constructor
  · constructor
    · rw [ht]
      exact hnodup.2
    · intro j hj
      rw [ht] at hj
      have hne : j ≠ i := fun heq => hnodup.1 (heq ▸ hj)
      rw [hother j hne]
      exact hs.vacant j (by rw [hfree]; exact List.mem_cons_of_mem _ hj)
    · intro m hm
      obtain ⟨j, hj⟩ := List.mem_iff_getElem?.1 hm
      by_cases hne : j = i
      · rw [hmarks, hne, List.getElem?_modify, hvacant] at hj
        simp only [if_true, Option.map_eq_map, Option.map_some, Option.some.injEq] at hj
        rw [← hj]
        exact hs.bounded (g, false) (List.mem_of_getElem? hvacant)
      · rw [hother j hne] at hj
        exact hs.bounded m (List.mem_of_getElem? hj)
  · intro h hh
    rw [at?_isSome] at hh ⊢
    by_cases hslot : h.slot = i
    · rw [hslot, hvacant] at hh
      cases hh
    · rw [hother h.slot hslot]
      exact .inl hh
  · intro h hh
    obtain ⟨g', b, hmark, hlater⟩ := hh
    by_cases hslot : h.slot = i
    · rw [hslot, hvacant] at hmark
      obtain ⟨rfl, rfl⟩ := Prod.mk.inj (Option.some.inj hmark)
      obtain hlater | ⟨_, _, hnot⟩ := hlater
      · refine ⟨g, true, ?_, .inl hlater⟩
        rw [hmarks, hslot, List.getElem?_modify, hvacant]
        simp
      · rw [hslot, hfree] at hnot
        exact absurd List.mem_cons_self hnot
    · refine ⟨g', b, ?_, ?_⟩
      · rw [hother h.slot hslot]
        exact hmark
      · rw [ht]
        obtain hlater | ⟨heq, hb, hnot⟩ := hlater
        · exact .inl hlater
        · refine .inr ⟨heq, hb, fun hmem => hnot ?_⟩
          rw [hfree]
          exact List.mem_cons_of_mem _ hmem

/-- A fresh slot is occupied: no handle named it before. -/
lemma ages_fresh (hs : Sane s) (hmarks : t.marks = s.marks ++ [(g, true)])
    (hfree : t.free = s.free) (hg : g ≤ u32Max) : Ages s t := by
  have hold : ∀ (j : Nat) (m : Nat × Bool), s.marks[j]? = some m → t.marks[j]? = some m := by
    intro j m hm
    rw [hmarks, List.getElem?_append_left (List.getElem?_eq_some_iff.1 hm).1]
    exact hm
  constructor
  · constructor
    · rw [hfree]
      exact hs.nodup
    · intro j hj
      rw [hfree] at hj
      obtain ⟨g', hvacant⟩ := hs.vacant j hj
      exact ⟨g', hold j _ hvacant⟩
    · intro m hm
      rw [hmarks] at hm
      obtain hm | hm := List.mem_append.1 hm
      · exact hs.bounded m hm
      · rw [List.mem_singleton.1 hm]
        exact hg
  · intro h hh
    rw [at?_isSome] at hh ⊢
    exact .inl (hold _ _ hh)
  · intro h hh
    obtain ⟨g', b, hmark, hlater⟩ := hh
    refine ⟨g', b, hold _ _ hmark, ?_⟩
    rw [hfree]
    exact hlater

lemma marks_set (s : Store) (i : Nat) (sl : Slot) :
    ({ s with slots := s.slots.set i sl } : Store).marks =
      s.marks.set i (sl.generation, sl.entry.isSome) := by
  unfold marks
  rw [List.map_set]

/-- A vacated slot moves on to its next generation, or is retired in its last one. -/
lemma ages_vacate (hs : Sane s) (hh : s.at? h = some e) : Ages s (s.vacate h.slot) := by
  have hslot := slot_of_at? hh
  have hlive : s.marks[h.slot]? = some (h.generation, true) :=
    at?_isSome.1 (by rw [hh]; rfl)
  have hlt : h.slot < s.marks.length := (List.getElem?_eq_some_iff.1 hlive).1
  have hnot : h.slot ∉ s.free := by
    intro hmem
    obtain ⟨g, hvacant⟩ := hs.vacant h.slot hmem
    rw [hlive] at hvacant
    cases hvacant
  -- Both ways of leaving give the slot a mark that is vacant and not earlier.
  obtain ⟨g, hmarks, hfree, hspent, hbound⟩ : ∃ g,
      (s.vacate h.slot).marks = s.marks.set h.slot (g, false) ∧
      ((s.vacate h.slot).free = h.slot :: s.free ∨ (s.vacate h.slot).free = s.free) ∧
      (h.generation < g ∨ (g = h.generation ∧ h.slot ∉ (s.vacate h.slot).free)) ∧
      g ≤ u32Max := by
    rw [vacate_eq s hslot]
    split_ifs with hlast
    · refine ⟨h.generation + 1, marks_set s _ _, .inl rfl, .inl ?_, hlast⟩
      exact Nat.lt_succ_self _
    · refine ⟨h.generation, marks_set s _ _, .inr rfl, .inr ⟨rfl, hnot⟩, ?_⟩
      exact hs.bounded _ (List.mem_of_getElem? hlive)
  have hself : (s.vacate h.slot).marks[h.slot]? = some (g, false) := by
    rw [hmarks, List.getElem?_set_self hlt]
  have hother : ∀ j, j ≠ h.slot → (s.vacate h.slot).marks[j]? = s.marks[j]? := by
    intro j hj
    rw [hmarks, List.getElem?_set_ne (Ne.symm hj)]
  have hmem : ∀ j, j ≠ h.slot → (j ∈ (s.vacate h.slot).free ↔ j ∈ s.free) := by
    intro j hj
    obtain hfree | hfree := hfree
    · rw [hfree, List.mem_cons]
      constructor
      · intro hmem
        obtain rfl | hmem := hmem
        · exact absurd rfl hj
        · exact hmem
      · exact .inr
    · rw [hfree]
  have hslotspent : ∀ k : Handle, k.slot = h.slot → k.generation ≤ h.generation →
      Spent (s.vacate h.slot) k := by
    intro k hk hle
    refine ⟨g, false, by rw [hk]; exact hself, ?_⟩
    obtain hlater | ⟨rfl, hgone⟩ := hspent
    · exact .inl (Nat.lt_of_le_of_lt hle hlater)
    · obtain hlt | heq := Nat.lt_or_eq_of_le hle
      · exact .inl hlt
      · exact .inr ⟨heq.symm, rfl, by rw [hk]; exact hgone⟩
  constructor
  · constructor
    · obtain hfree | hfree := hfree
      · rw [hfree, List.nodup_cons]
        exact ⟨hnot, hs.nodup⟩
      · rw [hfree]
        exact hs.nodup
    · intro j hj
      by_cases hjslot : j = h.slot
      · exact ⟨g, hjslot ▸ hself⟩
      · rw [hother j hjslot]
        exact hs.vacant j ((hmem j hjslot).1 hj)
    · intro m hm
      rw [hmarks] at hm
      obtain hm | hm := List.mem_or_eq_of_mem_set hm
      · exact hs.bounded m hm
      · rw [hm]
        exact hbound
  · intro k hk
    rw [at?_isSome] at hk ⊢
    by_cases hkslot : k.slot = h.slot
    · right
      rw [hkslot, hlive] at hk
      exact hslotspent k hkslot (Nat.le_of_eq (Prod.mk.inj (Option.some.inj hk)).1.symm)
    · rw [hother k.slot hkslot]
      exact .inl hk
  · intro k hk
    obtain ⟨g', b, hmark, hlater⟩ := hk
    by_cases hkslot : k.slot = h.slot
    · rw [hkslot, hlive] at hmark
      obtain ⟨rfl, rfl⟩ := Prod.mk.inj (Option.some.inj hmark)
      obtain hlater | ⟨_, hb, _⟩ := hlater
      · exact hslotspent k hkslot (Nat.le_of_lt hlater)
      · cases hb
    · refine ⟨g', b, ?_, ?_⟩
      · rw [hother k.slot hkslot]
        exact hmark
      · rw [hmem k.slot hkslot]
        exact hlater

end Store

end Rnx
