import Rnx.Store.Ownership

/-!
# Retiring an entry

The last release of an entry takes it out of its slot and out of the allocation order, and moves
the slot's generation on.  Everything other entries hold is untouched except the two links that
pointed at it.
-/

namespace Rnx

open ErrState

namespace Store

variable {s t : Store} {h k : Handle} {e : Entry} {own : Handle → Nat} {held : Option Hold}

/-! ## The vacated slot -/

lemma vacate_eq (s : Store) {i : Nat} {sl : Slot} (hsl : s.slots[i]? = some sl) :
    s.vacate i = if sl.generation < u32Max then
        { s with slots := s.slots.set i ⟨sl.generation + 1, none⟩, free := i :: s.free }
      else { s with slots := s.slots.set i ⟨sl.generation, none⟩ } := by
  unfold vacate
  rw [hsl]

lemma slot_of_at? (hh : s.at? h = some e) : s.slots[h.slot]? = some ⟨h.generation, some e⟩ := by
  rw [at?_eq_some] at hh
  unfold cell at hh
  rw [Option.bind_eq_some_iff] at hh
  obtain ⟨⟨g, o⟩, hsl, hm⟩ := hh
  rw [Option.map_eq_some_iff] at hm
  obtain ⟨x, rfl, hx⟩ := hm
  simp only [Prod.mk.injEq] at hx
  rw [hsl, ← hx.2, ← hx.1]

lemma vacate_slots (hh : s.at? h = some e) :
    ∃ g, (s.vacate h.slot).slots = s.slots.set h.slot ⟨g, none⟩ := by
  rw [vacate_eq s (slot_of_at? hh)]
  split_ifs
  · exact ⟨_, rfl⟩
  · exact ⟨_, rfl⟩

lemma slot_lt_of_at? (hh : s.at? h = some e) : h.slot < s.slots.length :=
  slot_lt (by rw [at?_eq_some.1 hh]; rfl)

lemma cell_vacate (hh : s.at? h = some e) (j : Nat) :
    (s.vacate h.slot).cell j = if j = h.slot then none else s.cell j := by
  obtain ⟨g, hs⟩ := vacate_slots hh
  unfold cell
  rw [hs, List.getElem?_set]
  by_cases hj : h.slot = j
  · subst hj
    simp [slot_lt_of_at? hh]
  · have : j ≠ h.slot := fun hh => hj hh.symm
    simp [hj, this]

@[simp] lemma vacate_length (i : Nat) : (s.vacate i).slots.length = s.slots.length := by
  unfold vacate
  split
  · rfl
  · split_ifs <;> simp

/-! ## Unlinking -/

/-- An entry with its links redirected. -/
def relinked (e : Entry) (j : Nat) (x : Entry) : Entry :=
  { x with
    next := if e.previous = some j then e.next else x.next
    previous := if e.next = some j then e.previous else x.previous }

lemma cell_relinkNext (a b : Option Nat) (j : Nat) : (s.relinkNext a b).cell j =
    (s.cell j).map (fun p => (p.1, { p.2 with next := if a = some j then b else p.2.next })) := by
  unfold relinkNext
  rcases a with _ | i
  · change s.cell j = _
    rcases s.cell j <;> simp
  · rw [cell_modify]
    by_cases hj : j = i
    · subst hj
      rcases s.cell j <;> simp
    · have : i ≠ j := fun hh => hj hh.symm
      rcases s.cell j <;> simp [hj, this]

lemma cell_relinkPrevious (a b : Option Nat) (j : Nat) : (s.relinkPrevious a b).cell j =
    (s.cell j).map
      (fun p => (p.1, { p.2 with previous := if a = some j then b else p.2.previous })) := by
  unfold relinkPrevious
  rcases a with _ | i
  · change s.cell j = _
    rcases s.cell j <;> simp
  · rw [cell_modify]
    by_cases hj : j = i
    · subst hj
      rcases s.cell j <;> simp
    · have : i ≠ j := fun hh => hj hh.symm
      rcases s.cell j <;> simp [hj, this]

lemma cell_unlink (e : Entry) (j : Nat) :
    (s.unlink e).cell j = (s.cell j).map (fun p => (p.1, relinked e j p.2)) := by
  unfold unlink
  rw [cell_relinkPrevious, cell_relinkNext, Option.map_map]
  rfl

lemma relinkNext_length (a b : Option Nat) :
    (s.relinkNext a b).slots.length = s.slots.length := by
  unfold relinkNext
  rcases a with _ | i <;> simp

lemma relinkPrevious_length (a b : Option Nat) :
    (s.relinkPrevious a b).slots.length = s.slots.length := by
  unfold relinkPrevious
  rcases a with _ | i <;> simp

lemma unlink_length (e : Entry) : (s.unlink e).slots.length = s.slots.length := by
  unfold unlink
  rw [relinkPrevious_length, relinkNext_length]

lemma modify_generation (i j : Nat) (f : Entry → Entry) :
    (s.modify i f).slots[j]?.map Slot.generation = s.slots[j]?.map Slot.generation := by
  simp only [modify, List.getElem?_modify]
  rcases s.slots[j]? with _ | sl
  · rfl
  · by_cases hj : i = j <;> simp [hj]

lemma relinkNext_generation (a b : Option Nat) (j : Nat) :
    (s.relinkNext a b).slots[j]?.map Slot.generation = s.slots[j]?.map Slot.generation := by
  unfold relinkNext
  rcases a with _ | i
  · rfl
  · exact modify_generation i j _

lemma relinkPrevious_generation (a b : Option Nat) (j : Nat) :
    (s.relinkPrevious a b).slots[j]?.map Slot.generation = s.slots[j]?.map Slot.generation := by
  unfold relinkPrevious
  rcases a with _ | i
  · rfl
  · exact modify_generation i j _

lemma unlink_generation (e : Entry) (j : Nat) :
    (s.unlink e).slots[j]?.map Slot.generation = s.slots[j]?.map Slot.generation :=
  (relinkPrevious_generation _ _ j).trans (relinkNext_generation _ _ j)

/-! ## Retirement -/

/-- The store once the entry of `h` has left it. -/
def retire (s : Store) (h : Handle) (e : Entry) : Store := (s.vacate h.slot).unlink e

lemma cell_retire (hh : s.at? h = some e) (j : Nat) :
    (s.retire h e).cell j =
      if j = h.slot then none else (s.cell j).map (fun p => (p.1, relinked e j p.2)) := by
  unfold retire
  rw [cell_unlink, cell_vacate hh]
  split_ifs <;> rfl

lemma at?_retire_self (hh : s.at? h = some e) : (s.retire h e).at? h = none := by
  unfold at?
  rw [cell_retire hh, if_pos rfl]
  rfl

lemma at?_retire_of_ne (hh : s.at? h = some e) (hk : k ≠ h) :
    (s.retire h e).at? k = (s.at? k).map (relinked e k.slot) := by
  by_cases hs : k.slot = h.slot
  · have hnone : s.at? k = none := by
      rcases hk' : s.at? k with _ | x
      · rfl
      · exact absurd (eq_of_slot_eq hk' hh hs) hk
    rw [hnone]
    unfold at?
    rw [cell_retire hh, if_pos hs]
    rfl
  · unfold at?
    rw [cell_retire hh, if_neg hs]
    rcases s.cell k.slot with _ | p
    · rfl
    · by_cases hp : p.1 = k <;> simp [hp]

@[simp] lemma retire_length : (s.retire h e).slots.length = s.slots.length := by
  unfold retire
  rw [unlink_length, vacate_length]

/-- The quantities of the other entries stay; the retired one's goes. -/
lemma total_retire (hh : s.at? h = some e) {φ : Handle → Entry → Nat}
    (hφ : ∀ k x j, φ k (relinked e j x) = φ k x) :
    (s.retire h e).total φ + φ h e = s.total φ := by
  have hchange := total_change (φ := φ) (s := s) (t := s.vacate h.slot) (vacate_length _)
    (slot_lt_of_at? hh) (fun j hj => by rw [cell_vacate hh, if_neg hj])
  rw [cell_vacate hh, if_pos rfl, at?_eq_some.1 hh] at hchange
  have hunlink : (s.retire h e).total φ = (s.vacate h.slot).total φ := by
    unfold total retire
    rw [unlink_length]
    refine Finset.sum_congr rfl fun i _ => ?_
    rw [cell_unlink]
    rcases (s.vacate h.slot).cell i with _ | p
    · rfl
    · exact hφ _ _ _
  rw [hunlink]
  simpa using hchange

lemma sum_retire (hh : s.at? h = some e) (φ : Payload → Nat) :
    (s.retire h e).sum φ + φ e.payload = s.sum φ :=
  total_retire hh fun _ _ _ => rfl

/-- The fields a retirement does not touch. -/
lemma retire_frame (s : Store) (h : Handle) (e : Entry) :
    (s.retire h e).closed = s.closed ∧ (s.retire h e).limits = s.limits ∧
      (s.retire h e).work = s.work ∧ (s.retire h e).edges = s.edges ∧
      (s.retire h e).workCap = s.workCap ∧ (s.retire h e).freeCap = s.freeCap ∧
      (s.retire h e).bytes = s.bytes ∧ (s.retire h e).live = s.live := by
  have hv : (s.vacate h.slot).closed = s.closed ∧ (s.vacate h.slot).limits = s.limits ∧
      (s.vacate h.slot).work = s.work ∧ (s.vacate h.slot).edges = s.edges ∧
      (s.vacate h.slot).workCap = s.workCap ∧ (s.vacate h.slot).freeCap = s.freeCap ∧
      (s.vacate h.slot).bytes = s.bytes ∧ (s.vacate h.slot).live = s.live := by
    unfold vacate
    split
    · exact ⟨rfl, rfl, rfl, rfl, rfl, rfl, rfl, rfl⟩
    · split_ifs <;> exact ⟨rfl, rfl, rfl, rfl, rfl, rfl, rfl, rfl⟩
  unfold retire unlink relinkNext relinkPrevious
  rcases e.previous with _ | a <;> rcases e.next with _ | b <;> exact hv

lemma retire_ends (s : Store) (h : Handle) (e : Entry) :
    (s.retire h e).first = (if e.previous = none then e.next else s.first) ∧
      (s.retire h e).last = (if e.next = none then e.previous else s.last) ∧
      (s.retire h e).free = (s.vacate h.slot).free := by
  have hv : (s.vacate h.slot).first = s.first ∧ (s.vacate h.slot).last = s.last := by
    unfold vacate
    split
    · exact ⟨rfl, rfl⟩
    · split_ifs <;> exact ⟨rfl, rfl⟩
  unfold retire unlink relinkNext relinkPrevious
  rcases e.previous with _ | a <;> rcases e.next with _ | b
  all_goals simp [modify, hv.1, hv.2]

/-! ## The table after a retirement -/

/-- The neighbours of a listed entry point back at it, so the checks of a last release pass. -/
lemma Table.linksAgree (ht : Table s) (hh : s.at? h = some e) : s.linksAgree h.slot e = true := by
  obtain ⟨order, hl, hm⟩ := ht.order
  have hc := at?_eq_some.1 hh
  have hin : h.slot ∈ order := (hm h.slot).2 (by rw [hc]; rfl)
  obtain ⟨l, r, ho⟩ := List.append_of_mem hin
  obtain ⟨hp, hn⟩ := hl.neighbours l h.slot r ho
  have hprev : e.previous = l.getLast? := by simpa [prevOf, hc] using hp
  have hnext : e.next = r.head? := by simpa [nextOf, hc] using hn
  unfold Store.linksAgree
  rw [hprev, hnext, Bool.and_eq_true]
  constructor
  · rcases List.eq_nil_or_concat l with rfl | ⟨l', y, rfl⟩
    · have : s.first = some h.slot := by rw [hl.first_eq, ho]; rfl
      simp [this]
    · have hy := (hl.neighbours l' y (h.slot :: r) (by rw [ho]; simp)).2
      have hys : (s.cell y).isSome = true := (hm y).1 (by rw [ho]; simp)
      obtain ⟨p, hp⟩ := Option.isSome_iff_exists.1 hys
      simp [nextOf, hp] at hy
      simp [hp, hy]
  · cases r with
    | nil =>
        have : s.last = some h.slot := by rw [hl.last_eq, ho]; simp
        simp [this]
    | cons y r =>
        have hy := (hl.neighbours (l ++ [h.slot]) y r (by rw [ho]; simp)).1
        have hys : (s.cell y).isSome = true := (hm y).1 (by rw [ho]; simp)
        obtain ⟨p, hp⟩ := Option.isSome_iff_exists.1 hys
        simp [prevOf, hp] at hy
        simp [hp, hy]

/-- The free list never fills its reservation while an entry is live. -/
lemma Table.free_lt (ht : Table s) (hh : s.at? h = some e) : s.free.length < s.freeCap := by
  have hsub : s.free.toFinset ⊆ (Finset.range s.slots.length).erase h.slot := by
    intro i hi
    obtain ⟨h1, h2⟩ := ht.free_vacant i (List.mem_toFinset.1 hi)
    refine Finset.mem_erase.2 ⟨?_, Finset.mem_range.2 h1⟩
    rintro rfl
    rw [at?_eq_some.1 hh] at h2
    cases h2
  have hlt := slot_lt_of_at? hh
  have hcard := Finset.card_le_card hsub
  rw [List.toFinset_card_of_nodup ht.free_nodup,
    Finset.card_erase_of_mem (Finset.mem_range.2 hlt), Finset.card_range] at hcard
  have := ht.free_cap
  omega

lemma isSome_cell_retire (hh : s.at? h = some e) (j : Nat) :
    ((s.retire h e).cell j).isSome = true ↔ j ≠ h.slot ∧ (s.cell j).isSome = true := by
  rw [cell_retire hh]
  split_ifs with hj
  · simp [hj]
  · simp [hj]

/-- The generation of every other slot stays. -/
lemma generation_retire (hh : s.at? h = some e) {j : Nat} (hj : j ≠ h.slot) :
    (s.retire h e).slots[j]?.map Slot.generation = s.slots[j]?.map Slot.generation := by
  obtain ⟨g, hs⟩ := vacate_slots hh
  unfold retire
  rw [unlink_generation, hs, List.getElem?_set_ne (Ne.symm hj)]

/-- The vacated slot moves to its next generation and is free, or was in its last one. -/
lemma vacated_slot (hh : s.at? h = some e) :
    (h.generation < u32Max ∧ (s.vacate h.slot).free = h.slot :: s.free ∧
      (s.retire h e).slots[h.slot]?.map Slot.generation = some (h.generation + 1)) ∨
    (¬ h.generation < u32Max ∧ (s.vacate h.slot).free = s.free ∧
      (s.retire h e).slots[h.slot]?.map Slot.generation = some h.generation) := by
  have hlt := slot_lt_of_at? hh
  have hv := vacate_eq s (slot_of_at? hh)
  by_cases hg : h.generation < u32Max
  · refine .inl ⟨hg, ?_, ?_⟩
    · rw [hv, if_pos hg]
    · unfold retire
      rw [unlink_generation, hv, if_pos hg]
      simp [hlt]
  · refine .inr ⟨hg, ?_, ?_⟩
    · rw [hv, if_neg hg]
    · unfold retire
      rw [unlink_generation, hv, if_neg hg]
      simp [hlt]

/-- A retired slot leaves the allocation order; the others keep theirs. -/
lemma linked_retire {order : List Nat} (hl : Linked s.prevOf s.nextOf s.first s.last order)
    (hm : ∀ i, i ∈ order ↔ (s.cell i).isSome) (hh : s.at? h = some e) :
    Linked (s.retire h e).prevOf (s.retire h e).nextOf (s.retire h e).first (s.retire h e).last
      (order.erase h.slot) ∧
    ∀ i, i ∈ order.erase h.slot ↔ ((s.retire h e).cell i).isSome := by
  obtain ⟨hfirst, hlast, -⟩ := retire_ends s h e
  have hc := at?_eq_some.1 hh
  have hin : h.slot ∈ order := (hm h.slot).2 (by rw [hc]; rfl)
  obtain ⟨l, r, ho⟩ := List.append_of_mem hin
  have hpe : s.prevOf h.slot = e.previous := by simp [prevOf, hc]
  have hne : s.nextOf h.slot = e.next := by simp [nextOf, hc]
  have hsplit := Linked.not_mem_of_split hl.nodup ho
  have hother : ∀ y ∈ l ++ r, y ≠ h.slot := by
    rintro y hy rfl
    rcases List.mem_append.1 hy with hy | hy
    · exact hsplit.1 hy
    · exact hsplit.2.1 hy
  have hcells : ∀ y ∈ l ++ r, ∃ p, s.cell y = some p := fun y hy => by
    refine Option.isSome_iff_exists.1 ((hm y).1 ?_)
    rw [ho]
    rcases List.mem_append.1 hy with hy | hy <;> simp [hy]
  have herase : order.erase h.slot = l ++ r := by
    rw [ho, List.erase_append_right _ hsplit.1, List.erase_cons_head]
  rw [herase]
  refine ⟨?_, fun i => ?_⟩
  · rw [hfirst, hlast, ← hpe, ← hne]
    refine hl.remove ho (fun y hy => ?_) (fun y hy => ?_)
    · obtain ⟨p, hp⟩ := hcells y hy
      simp [prevOf, cell_retire hh, hother y hy, hp, hc, nextOf, relinked]
    · obtain ⟨p, hp⟩ := hcells y hy
      simp [prevOf, cell_retire hh, hother y hy, hp, hc, nextOf, relinked]
  · rw [isSome_cell_retire hh, ← hm, ho]
    constructor
    · intro hi
      refine ⟨hother i hi, ?_⟩
      rcases List.mem_append.1 hi with hi | hi <;> simp [hi]
    · rintro ⟨hne, hi⟩
      simpa [hne] using hi

/-- A retirement keeps the table. -/
lemma Table.retire (ht : Table s) (hh : s.at? h = some e) : Table (s.retire h e) := by
  obtain ⟨hcl, hli, -, -, -, hfc, -, -⟩ := retire_frame s h e
  obtain ⟨-, -, hfree⟩ := retire_ends s h e
  have hc := at?_eq_some.1 hh
  have hnotfree : h.slot ∉ s.free := fun hm => by
    have := (ht.free_vacant _ hm).2
    rw [hc] at this
    cases this
  have hgen : ∀ (i : Nat) (sl : Slot), (s.retire h e).slots[i]? = some sl → i ≠ h.slot →
      ∃ sl', s.slots[i]? = some sl' ∧ sl'.generation = sl.generation := by
    intro i sl hsl hi
    have := generation_retire hh hi
    rw [hsl] at this
    exact Option.map_eq_some_iff.1 this.symm
  refine
    { isOpen := hcl.trans ht.isOpen
      order := ?_, free_nodup := ?_, free_vacant := ?_, vacant_free := ?_, generation := ?_
      free_cap := by rw [retire_length, hfc]; exact ht.free_cap
      slots_le := by rw [retire_length, hli]; exact ht.slots_le
      entries_le := hli ▸ ht.entries_le
      limit_le := hli ▸ ht.limit_le }
  · obtain ⟨order, hl, hm⟩ := ht.order
    exact ⟨_, linked_retire hl hm hh⟩
  · rw [hfree]
    rcases vacated_slot hh with ⟨-, hf, -⟩ | ⟨-, hf, -⟩
    · rw [hf]
      exact List.nodup_cons.2 ⟨hnotfree, ht.free_nodup⟩
    · rw [hf]
      exact ht.free_nodup
  · have hold : ∀ i ∈ s.free, i < (s.retire h e).slots.length ∧ (s.retire h e).cell i = none := by
      intro i hi
      obtain ⟨h1, h2⟩ := ht.free_vacant i hi
      rw [retire_length, cell_retire hh, h2]
      exact ⟨h1, by split_ifs <;> rfl⟩
    intro i hi
    rw [hfree] at hi
    rcases vacated_slot hh with ⟨-, hf, -⟩ | ⟨-, hf, -⟩
    · rw [hf] at hi
      rcases List.mem_cons.1 hi with rfl | hi
      · rw [retire_length, cell_retire hh, if_pos rfl]
        exact ⟨slot_lt_of_at? hh, rfl⟩
      · exact hold i hi
    · rw [hf] at hi
      exact hold i hi
  · intro i sl hsl he hi
    rw [hfree] at hi
    by_cases his : i = h.slot
    · subst his
      rcases vacated_slot hh with ⟨-, hf, -⟩ | ⟨hg, -, hs⟩
      · exact absurd (by rw [hf]; exact List.mem_cons_self) hi
      · rw [hsl] at hs
        have := ht.generation _ _ (slot_of_at? hh)
        simp only [Option.map_some, Option.some.injEq] at hs
        simp only at this
        omega
    · obtain ⟨sl', hsl', hge⟩ := hgen i sl hsl his
      have hnone : s.cell i = none := by
        have h0 : (s.retire h e).cell i = none := cell_eq_none_iff.2 fun x hx => by
          rw [hsl] at hx
          rw [← Option.some.inj hx]
          exact he
        rw [cell_retire hh, if_neg his] at h0
        simpa using h0
      have hi' : i ∉ s.free := fun hm => hi (by
        rcases vacated_slot hh with ⟨-, hf, -⟩ | ⟨-, hf, -⟩ <;> rw [hf] <;> simp [hm])
      rw [← hge]
      exact ht.vacant_free i sl' hsl' (cell_eq_none_iff.1 hnone _ hsl') hi'
  · intro i sl hsl
    by_cases his : i = h.slot
    · subst his
      have hb := ht.generation _ _ (slot_of_at? hh)
      simp only at hb
      rcases vacated_slot hh with ⟨hg, -, hs⟩ | ⟨hg, -, hs⟩
      · rw [hsl] at hs
        simp only [Option.map_some, Option.some.injEq] at hs
        omega
      · rw [hsl] at hs
        simp only [Option.map_some, Option.some.injEq] at hs
        omega
    · obtain ⟨sl', hsl', hge⟩ := hgen i sl hsl his
      rw [← hge]
      exact ht.generation i sl' hsl'

end Store

end Rnx
