import Rnx.Store.Cascade

/-!
# Admission publishes or changes nothing

A failed admission leaves nothing behind but reserved capacity.  A successful one adds one entry,
owned once by the caller, to the tail of the allocation order; the references of its payload are
retained and counted.
-/

namespace Rnx

open ErrState

namespace Store

variable {s t u w : Store} {h k : Handle} {e : Entry} {own : Handle → Nat} {held : Option Hold}
  {p : Payload} {a : Admitted} {i g : Nat} {rest : List Nat}

/-! ## The vacant slot -/

/-- `w` is `s` with room reserved and the vacant slot `i` of generation `g` set aside. -/
structure Vacant (s w : Store) (i g : Nat) (rest : List Nat) : Prop where
  cells : ∀ j, w.cell j = s.cell j
  slot : w.slots[i]? = some ⟨g, none⟩
  generation : ∀ j : Nat, j ≠ i → w.slots[j]?.map Slot.generation = s.slots[j]?.map Slot.generation
  gen_le : g ≤ u32Max
  origin : i ∈ s.free ∨ s.slots.length ≤ i
  rest_free : ∀ j ∈ rest, j ∈ s.free ∧ j ≠ i
  free_rest : ∀ j ∈ s.free, j ≠ i → j ∈ rest
  rest_nodup : rest.Nodup
  cap : w.slots.length ≤ w.freeCap
  length_le : w.slots.length ≤ s.limits.entries
  fields : w.closed = s.closed ∧ w.limits = s.limits ∧ w.first = s.first ∧ w.last = s.last ∧
    w.work = s.work ∧ w.edges = s.edges ∧ w.bytes = s.bytes ∧ w.live = s.live

lemma Vacant.lt (hv : Vacant s w i g rest) : i < w.slots.length := by
  by_contra hn
  have := hv.slot
  rw [List.getElem?_eq_none (by omega)] at this
  cases this

lemma Vacant.cell_none (hv : Vacant s w i g rest) : s.cell i = none := by
  rw [← hv.cells]
  exact cell_eq_none_iff.2 fun sl hsl => by
    rw [hv.slot] at hsl
    rw [← Option.some.inj hsl]

lemma Vacant.at? (hv : Vacant s w i g rest) (k : Handle) : w.at? k = s.at? k := by
  unfold Store.at?
  rw [hv.cells]

lemma Vacant.fresh (hv : Vacant s w i g rest) (gen : Nat) : s.at? ⟨i, gen⟩ = none := by
  unfold Store.at?
  rw [hv.cell_none]
  rfl

/-- The sum over a store with a slot set aside is the same. -/
lemma Vacant.total (hv : Vacant s w i g rest) (φ : Handle → Entry → Nat) :
    w.total φ = s.total φ := by
  have hext : ∀ (x y : Store), (∀ j, x.cell j = y.cell j) → x.slots.length ≤ y.slots.length →
      x.total φ = y.total φ := by
    intro x y hc hle
    unfold Store.total
    refine Finset.sum_subset (Finset.range_mono hle) (fun j _ hj => ?_) |>.trans
      (Finset.sum_congr rfl fun j _ => by rw [hc])
    have : x.cell j = none := cell_eq_none_iff.2 fun sl hsl => by
      rw [List.getElem?_eq_none (by simpa using hj)] at hsl
      cases hsl
    rw [this]
    rfl
  rcases Nat.le_total w.slots.length s.slots.length with hle | hle
  · exact hext w s hv.cells hle
  · exact (hext s w (fun j => (hv.cells j).symm) hle).symm

/-! ## Publishing -/

/-- The reader count of slot `j` once the payload's lease is taken. -/
def leasedReaders (p : Payload) (readers : Option Nat) (j r : Nat) : Nat :=
  match p, readers with
  | .vectorIterator iter, some n => if iter.handle.slot = j then n else r
  | _, _ => r

lemma withLease_cases (s : Store) (p : Payload) (readers : Option Nat) :
    (∃ iter n, p = .vectorIterator iter ∧ readers = some n ∧ s.withLease p readers =
      s.modify iter.handle.slot (fun e => { e with readers := n })) ∨
    (s.withLease p readers = s ∧ ∀ j r, leasedReaders p readers j r = r) := by
  cases p with
  | vectorIterator iter =>
      cases readers with
      | some n => exact .inl ⟨iter, n, rfl, rfl, rfl⟩
      | none => exact .inr ⟨rfl, fun _ _ => rfl⟩
  | _ => exact .inr ⟨rfl, fun _ _ => rfl⟩

lemma cell_withLease (readers : Option Nat) (j : Nat) : (s.withLease p readers).cell j =
    (s.cell j).map
      (fun q => (q.1, { q.2 with readers := leasedReaders p readers j q.2.readers })) := by
  rcases withLease_cases s p readers with ⟨iter, n, rfl, rfl, he⟩ | ⟨he, hr⟩
  · rw [he, cell_modify]
    by_cases hj : j = iter.handle.slot
    · subst hj
      rcases s.cell iter.handle.slot <;> simp [leasedReaders]
    · have : iter.handle.slot ≠ j := fun hh => hj hh.symm
      rcases s.cell j <;> simp [leasedReaders, hj, this]
  · rw [he]
    rcases s.cell j <;> simp [hr]

lemma withLease_slot (readers : Option Nat) (hs : s.slots[i]? = some ⟨g, none⟩) :
    (s.withLease p readers).slots[i]? = some ⟨g, none⟩ := by
  rcases withLease_cases s p readers with ⟨iter, n, rfl, rfl, he⟩ | ⟨he, -⟩
  · rw [he]
    simp only [modify, List.getElem?_modify, hs]
    by_cases hj : iter.handle.slot = i <;> simp [hj]
  · rw [he, hs]

/-- What publishing an entry in slot `i` does to the entry of slot `j`. -/
def adopted (p : Payload) (a : Admitted) (i : Nat) (last : Option Nat) (j : Nat) (x : Entry) :
    Entry :=
  { x with
    readers := leasedReaders p a.readers j x.readers
    next := if last = some j then some i else x.next }

/-- The new entry. -/
def newEntry (last : Option Nat) (charged : Nat) (p : Payload) : Entry :=
  ⟨last, none, 1, 0, charged, false, p⟩

lemma cell_place (hs : s.slots[i]? = some ⟨g, none⟩) (x : Entry) (j : Nat) :
    (s.place i x).cell j = if j = i then some (⟨i, g⟩, x) else s.cell j := by
  unfold cell place
  simp only [List.getElem?_modify]
  by_cases hj : i = j
  · subst hj
    simp [hs]
  · have : j ≠ i := fun hh => hj hh.symm
    simp [hj, this]

lemma withLease_last (readers : Option Nat) : (s.withLease p readers).last = s.last := by
  rcases withLease_cases s p readers with ⟨iter, n, rfl, rfl, he⟩ | ⟨he, -⟩ <;> rw [he]
  rfl

lemma cell_publish (hs : s.slots[i]? = some ⟨g, none⟩) (hlast : s.last ≠ some i) (j : Nat) :
    (s.publish i p a).cell j = if j = i then some (⟨i, g⟩, newEntry s.last a.charged p)
      else (s.cell j).map (fun q => (q.1, adopted p a i s.last j q.2)) := by
  unfold publish
  change (relinkNext (place _ i _) _ _).cell j = _
  rw [cell_relinkNext, cell_place (withLease_slot a.readers hs)]
  have hpl : ∀ x, ((s.withLease p a.readers).place i x).last = s.last := fun _ => withLease_last _
  rw [hpl, withLease_last]
  by_cases hj : j = i
  · subst hj
    simp [newEntry, hlast]
  · rw [if_neg hj, if_neg hj, cell_withLease, Option.map_map]
    rfl

lemma publish_length : (s.publish i p a).slots.length = s.slots.length := by
  unfold publish
  change (relinkNext (place _ i _) _ _).slots.length = _
  rw [relinkNext_length]
  rcases withLease_cases s p a.readers with ⟨iter, n, rfl, hr, he⟩ | ⟨he, -⟩ <;>
    simp [place, he]

lemma publish_generation (j : Nat) :
    (s.publish i p a).slots[j]?.map Slot.generation = s.slots[j]?.map Slot.generation := by
  have hplace : ∀ (u : Store) (x : Entry),
      (u.place i x).slots[j]?.map Slot.generation = u.slots[j]?.map Slot.generation := by
    intro u x
    simp only [place, List.getElem?_modify]
    rcases u.slots[j]? with _ | sl
    · rfl
    · by_cases hj : i = j <;> simp [hj]
  unfold publish
  change (relinkNext (place _ i _) _ _).slots[j]?.map Slot.generation = _
  rw [relinkNext_generation, hplace]
  rcases withLease_cases s p a.readers with ⟨iter, n, rfl, hr, he⟩ | ⟨he, -⟩
  · rw [he]
    exact modify_generation _ _ _
  · rw [he]

lemma publish_fields : (s.publish i p a).closed = s.closed ∧ (s.publish i p a).limits = s.limits ∧
    (s.publish i p a).last = some i ∧ (s.publish i p a).work = s.work ∧
    (s.publish i p a).edges = a.edges ∧ (s.publish i p a).bytes = a.bytes ∧
    (s.publish i p a).live = s.live + 1 ∧ (s.publish i p a).freeCap = s.freeCap ∧
    (s.publish i p a).workCap = s.workCap ∧
    (s.publish i p a).first = if s.last = none then some i else s.first := by
  unfold publish relinkNext
  rcases withLease_cases s p a.readers with ⟨iter, n, rfl, hr, he⟩ | ⟨he, -⟩ <;>
    rcases hl : s.last with _ | l <;> simp [place, modify, he, hl]

lemma publish_free : (s.publish i p a).free = s.free := by
  unfold publish relinkNext
  rcases withLease_cases s p a.readers with ⟨iter, n, rfl, hr, he⟩ | ⟨he, -⟩ <;>
    rcases hl : s.last with _ | l <;> simp [place, modify, he, hl]

/-! ## The published store -/

/-- The store after a successful admission into the vacant slot `i`. -/
def published (w : Store) (i : Nat) (p : Payload) (a : Admitted) (rest : List Nat) : Store :=
  { (w.bump (refsIn p.children)).publish i p a with free := rest }

/-- Without vacated slots there is nothing to take off the free list. -/
lemma publish_eq_published (hf : w.free = []) :
    (w.bump (refsIn p.children)).publish i p a = w.published i p a [] := by
  have : ((w.bump (refsIn p.children)).publish i p a).free = [] := publish_free.trans hf
  unfold published
  rw [← this]

/-- What an admission does to an entry that was there before. -/
def grown (p : Payload) (a : Admitted) (i : Nat) (last : Option Nat) (k : Handle) (x : Entry) :
    Entry :=
  adopted p a i last k.slot { x with strong := x.strong + p.refs k }

lemma Vacant.last_ne (hv : Vacant s w i g rest) (ht : Table s) : s.last ≠ some i := by
  intro hl
  obtain ⟨order, hlk, hm⟩ := ht.order
  have := (hm i).1 (hlk.last_mem hl)
  rw [hv.cell_none] at this
  cases this

lemma cell_published (hv : Vacant s w i g rest) (ht : Table s) (j : Nat) :
    (w.published i p a rest).cell j =
      if j = i then some (⟨i, g⟩, newEntry s.last a.charged p)
      else (s.cell j).map (fun q => (q.1, grown p a i s.last q.1 q.2)) := by
  have hslot : (w.bump (refsIn p.children)).slots[i]? = some ⟨g, none⟩ := by
    simp only [bump, List.getElem?_mapIdx, hv.slot]
    rfl
  have hlast : (w.bump (refsIn p.children)).last = s.last := hv.fields.2.2.2.1
  change ((w.bump (refsIn p.children)).publish i p a).cell j = _
  rw [cell_publish hslot (by rw [hlast]; exact hv.last_ne ht), hlast, cell_bump, hv.cells]
  split_ifs with hj
  · rfl
  · rcases hc : s.cell j with _ | q
    · rfl
    · have := cell_handle_slot hc
      simp [grown, this, Payload.refs]

lemma at?_published_new (hv : Vacant s w i g rest) (ht : Table s) :
    (w.published i p a rest).at? ⟨i, g⟩ = some (newEntry s.last a.charged p) := by
  rw [at?_eq_some, cell_published hv ht]
  exact if_pos rfl

lemma at?_published_old (hv : Vacant s w i g rest) (ht : Table s) (hk : k ≠ ⟨i, g⟩) :
    (w.published i p a rest).at? k = (s.at? k).map (grown p a i s.last k) := by
  unfold at?
  rw [cell_published hv ht]
  by_cases hs : k.slot = i
  · rw [if_pos hs, hs, hv.cell_none]
    simp [Ne.symm hk]
  · rw [if_neg hs]
    rcases s.cell k.slot with _ | q
    · rfl
    · by_cases hq : q.1 = k <;> simp [hq]

lemma published_length : (w.published i p a rest).slots.length = w.slots.length := by
  change ((w.bump (refsIn p.children)).publish i p a).slots.length = _
  rw [publish_length, bump_length]

/-- A quantity an admission does not touch grows by the new entry's. -/
lemma total_published (hv : Vacant s w i g rest) (ht : Table s) {φ : Handle → Entry → Nat}
    (hφ : ∀ k x l, φ k (grown p a i l k x) = φ k x) :
    (w.published i p a rest).total φ =
      s.total φ + φ ⟨i, g⟩ (newEntry s.last a.charged p) := by
  rw [← hv.total φ]
  have := total_change_at (φ := φ) (s := w) (t := w.published i p a rest) published_length hv.lt
    (fun j hj => by
      rw [cell_published hv ht, if_neg hj, hv.cells]
      rcases s.cell j with _ | q
      · rfl
      · exact hφ _ _ _)
  rw [cell_published hv ht, if_pos rfl, hv.cells, hv.cell_none] at this
  simpa using this

lemma sum_published (hv : Vacant s w i g rest) (ht : Table s) (φ : Payload → Nat) :
    (w.published i p a rest).sum φ = s.sum φ + φ p :=
  total_published hv ht fun _ _ _ => rfl

/-- The children of an admitted payload are live. -/
def LiveChildren (p : Payload) (s : Store) : Prop :=
  ∀ k, Value.heap k ∈ p.children → (s.at? k).isSome = true

lemma LiveChildren.refs_eq_zero (hp : LiveChildren p s) (hk : s.at? k = none) : p.refs k = 0 := by
  by_contra hne
  have := hp k (mem_of_refsIn_pos (Nat.pos_of_ne_zero hne))
  rw [hk] at this
  cases this

/-- The counts after an admission: one new reference outside, and the payload's own. -/
lemma Counts.published {extra : Nat} (hc : Counts own extra s) (ht : Table s)
    (hv : Vacant s w i g rest) (hp : LiveChildren p s) (hbytes : a.bytes = s.bytes + a.charged)
    (hle : a.bytes ≤ s.limits.bytes) (hedges : a.edges = s.edges + p.edges)
    (hroom : a.edges + s.work.length + 1 ≤ w.workCap) :
    Counts (own + (Value.heap ⟨i, g⟩).refs) extra (w.published i p a rest) := by
  obtain ⟨-, hli, -, hwo, hed, hby, hlv, -, hwc, -⟩ :=
    publish_fields (s := w.bump (refsIn p.children)) (i := i) (p := p) (a := a)
  obtain ⟨-, wli, -, -, wwo, -, -, wlv⟩ := hv.fields
  have hwork : (w.published i p a rest).work = s.work := hwo.trans wwo
  have hfresh := hv.fresh g
  refine
    { balance := fun k => ?_, alive := fun k x hx => ?_, edges := ?_, bytes := ?_, bytes_le := ?_
      live := ?_, queued := ?_, room := ?_ }
  · have hb := hc.balance k
    rw [sum_published hv ht, hwork, Pi.add_apply]
    by_cases hk : k = ⟨i, g⟩
    · subst hk
      have h0 := hp.refs_eq_zero hfresh
      unfold strongAt at hb
      rw [hfresh] at hb
      rw [strongAt_of_at? (at?_published_new hv ht), Value.refs_self]
      change 1 = _
      simp only [Option.elim_none] at hb
      omega
    · have hstrong : (w.published i p a rest).strongAt k = s.strongAt k + p.refs k := by
        unfold strongAt
        rw [at?_published_old hv ht hk]
        rcases hx : s.at? k with _ | x
        · rw [hp.refs_eq_zero hx]
          rfl
        · rfl
      rw [Value.refs_of_ne (Ne.symm hk), hstrong]
      omega
  · by_cases hk : k = ⟨i, g⟩
    · subst hk
      rw [at?_published_new hv ht] at hx
      rw [← Option.some.inj hx]
      exact Nat.le_refl 1
    · rw [at?_published_old hv ht hk, Option.map_eq_some_iff] at hx
      obtain ⟨y, hy, rfl⟩ := hx
      exact (hc.alive k y hy).trans (Nat.le_add_right _ _)
  · have := hc.edges
    rw [sum_published hv ht]
    change ((w.bump (refsIn p.children)).publish i p a).edges = _
    rw [hed]
    omega
  · have := hc.bytes
    rw [total_published hv ht fun _ _ _ => rfl]
    change ((w.bump (refsIn p.children)).publish i p a).bytes = _
    rw [hby, hbytes]
    change _ = _ + a.charged
    omega
  · change ((w.bump (refsIn p.children)).publish i p a).bytes ≤
      ((w.bump (refsIn p.children)).publish i p a).limits.bytes
    rw [hby, hli]
    change a.bytes ≤ w.limits.bytes
    rw [wli]
    exact hle
  · have := hc.live
    rw [total_published hv ht fun _ _ _ => rfl]
    change ((w.bump (refsIn p.children)).publish i p a).live = _
    rw [hlv]
    change w.live + 1 = _
    rw [wlv]
    omega
  · rw [hwork]
    exact hc.queued
  · rw [hwork]
    change ((w.bump (refsIn p.children)).publish i p a).edges + _ + 1 ≤
      ((w.bump (refsIn p.children)).publish i p a).workCap
    rw [hed, hwc]
    exact hroom

/-- The new slot joins the allocation order at its tail. -/
lemma linked_published (ht : Table s) (hv : Vacant s w i g rest) {order : List Nat}
    (hl : Linked s.prevOf s.nextOf s.first s.last order)
    (hm : ∀ j, j ∈ order ↔ (s.cell j).isSome) :
    Linked (w.published i p a rest).prevOf (w.published i p a rest).nextOf
      (w.published i p a rest).first (w.published i p a rest).last (order ++ [i]) ∧
    ∀ j, j ∈ order ++ [i] ↔ ((w.published i p a rest).cell j).isSome := by
  obtain ⟨-, -, hla, -, -, -, -, -, -, hfi⟩ :=
    publish_fields (s := w.bump (refsIn p.children)) (i := i) (p := p) (a := a)
  obtain ⟨-, -, wfi, wla, -, -, -, -⟩ := hv.fields
  have hni : i ∉ order := fun hi => by
    have := (hm i).1 hi
    rw [hv.cell_none] at this
    cases this
  have hne : ∀ y ∈ order, y ≠ i := fun y hy hyi => hni (hyi ▸ hy)
  have hcells : ∀ y ∈ order, ∃ q, s.cell y = some q ∧ q.1.slot = y := fun y hy => by
    obtain ⟨q, hq⟩ := Option.isSome_iff_exists.1 ((hm y).1 hy)
    exact ⟨q, hq, cell_handle_slot hq⟩
  have hends : (w.published i p a rest).first = (if s.last = none then some i else s.first) ∧
      (w.published i p a rest).last = some i := by
    refine ⟨hfi.trans ?_, hla⟩
    change (if w.last = none then some i else w.first) = _
    rw [wla, wfi]
  refine ⟨?_, fun j => ?_⟩
  · rw [hends.1, hends.2]
    refine hl.append hni ?_ ?_ (fun y hy => ?_) (fun y hy => ?_)
    · simp [prevOf, cell_published hv ht, newEntry]
    · simp [nextOf, cell_published hv ht, newEntry]
    · obtain ⟨q, hq, -⟩ := hcells y hy
      simp [prevOf, cell_published hv ht, hne y hy, hq, grown, adopted]
    · obtain ⟨q, hq, hs⟩ := hcells y hy
      simp [nextOf, cell_published hv ht, hne y hy, hq, grown, adopted, hs]
  · rw [cell_published hv ht, List.mem_append, List.mem_singleton, hm j]
    by_cases hj : j = i
    · simp [hj]
    · simp [hj]

/-- A publication keeps the table. -/
lemma Table.published (ht : Table s) (hv : Vacant s w i g rest) :
    Table (w.published i p a rest) := by
  obtain ⟨hcl, hli, -, -, -, -, -, hfc, -, -⟩ :=
    publish_fields (s := w.bump (refsIn p.children)) (i := i) (p := p) (a := a)
  obtain ⟨wcl, wli, -, -, -, -, -, -⟩ := hv.fields
  have hlimits : (w.published i p a rest).limits = s.limits := hli.trans wli
  have hgen : ∀ j : Nat, (w.published i p a rest).slots[j]?.map Slot.generation =
      w.slots[j]?.map Slot.generation := by
    intro j
    change ((w.bump (refsIn p.children)).publish i p a).slots[j]?.map Slot.generation = _
    rw [publish_generation]
    exact (sameTable_bump w _).generation j
  refine
    { isOpen := hcl.trans (wcl.trans ht.isOpen)
      order := ?_, free_nodup := hv.rest_nodup, free_vacant := ?_, vacant_free := ?_
      generation := ?_
      free_cap := by
        rw [published_length]
        change _ ≤ ((w.bump (refsIn p.children)).publish i p a).freeCap
        rw [hfc]
        exact hv.cap
      slots_le := by
        rw [published_length, hlimits]
        exact hv.length_le
      entries_le := hlimits ▸ ht.entries_le
      limit_le := hlimits ▸ ht.limit_le }
  · obtain ⟨order, hl, hm⟩ := ht.order
    exact ⟨_, linked_published ht hv hl hm⟩
  · intro j hj
    obtain ⟨hjf, hji⟩ := hv.rest_free j hj
    obtain ⟨-, hnone⟩ := ht.free_vacant j hjf
    rw [published_length, cell_published hv ht, if_neg hji, hnone]
    refine ⟨?_, rfl⟩
    have := hv.generation j hji
    have hlt := (ht.free_vacant j hjf).1
    by_contra hn
    rw [List.getElem?_eq_none (by omega), List.getElem?_eq_getElem hlt] at this
    cases this
  · intro j sl hsl hent hj
    have hji : j ≠ i := by
      rintro rfl
      have h0 : (w.published j p a rest).cell j = none := cell_eq_none_iff.2 fun x hx => by
        rw [hsl] at hx
        rw [← Option.some.inj hx]
        exact hent
      rw [cell_published hv ht, if_pos rfl] at h0
      cases h0
    have h0 : s.cell j = none := by
      have h0 : (w.published i p a rest).cell j = none := cell_eq_none_iff.2 fun x hx => by
        rw [hsl] at hx
        rw [← Option.some.inj hx]
        exact hent
      rw [cell_published hv ht, if_neg hji] at h0
      simpa using h0
    have hg := hgen j
    rw [hv.generation j hji, hsl] at hg
    obtain ⟨sl', hsl', hge⟩ := Option.map_eq_some_iff.1 hg.symm
    rw [← hge]
    exact ht.vacant_free j sl' hsl' (cell_eq_none_iff.1 h0 _ hsl') fun hf => hj (hv.free_rest j hf hji)
  · intro j sl hsl
    have hg := hgen j
    rw [hsl] at hg
    by_cases hji : j = i
    · subst hji
      rw [hv.slot] at hg
      have := hv.gen_le
      simp only [Option.map_some, Option.some.injEq] at hg
      omega
    · rw [hv.generation j hji] at hg
      obtain ⟨sl', hsl', hge⟩ := Option.map_eq_some_iff.1 hg.symm
      rw [← hge]
      exact ht.generation j sl' hsl'

/-! ## Admission -/

lemma payload_eq_ok {q : Payload} :
    s.payload h = .ok q ↔ s.closed = false ∧ ∃ e, s.at? h = some e ∧ e.payload = q ∧
      q.isMoved = false := by
  unfold payload
  rw [Except.bind_eq_ok]
  constructor
  · rintro ⟨e, he, hq⟩
    obtain ⟨hcl, he⟩ := entry_eq_ok.1 he
    split_ifs at hq with hm
    obtain rfl := Except.ok.inj hq
    exact ⟨hcl, e, he, rfl, by simpa using hm⟩
  · rintro ⟨hcl, e, he, rfl, hm⟩
    exact ⟨e, entry_eq_ok.2 ⟨hcl, he⟩, by rw [hm]; rfl⟩

lemma leaseReaders_eq_ok {n : Nat} (hn : s.leaseReaders h = .ok n) :
    ∃ e, s.at? h = some e ∧ n = e.readers + 1 ∧ e.readers + 1 < exclusiveReaders := by
  unfold leaseReaders at hn
  simp only [Except.bind_eq_ok, ensure_eq_ok] at hn
  obtain ⟨e, he, -, ⟨h1, h2⟩, h3⟩ := hn
  obtain ⟨-, he⟩ := entry_eq_ok.1 he
  refine ⟨e, he, (Except.ok.inj h3).symm, ?_⟩
  have : exclusiveReaders = u32Max := rfl
  omega

lemma admitReaders_eq_ok {r : Option Nat} (hr : s.admitReaders p = .ok r) :
    (∃ iter e, p = .vectorIterator iter ∧ s.at? iter.handle = some e ∧
      e.payload.isMoved = false ∧ r = some (e.readers + 1) ∧ e.readers + 1 < exclusiveReaders) ∨
    (∀ iter, p ≠ .vectorIterator iter) ∧ r = none := by
  cases p with
  | vectorIterator iter =>
      simp only [admitReaders, Except.bind_eq_ok, ensure_eq_ok] at hr
      obtain ⟨q, hq, -, -, n, hn, hr⟩ := hr
      obtain ⟨-, e, he, rfl, hm⟩ := payload_eq_ok.1 hq
      obtain ⟨e', he', rfl, hlt⟩ := leaseReaders_eq_ok hn
      obtain rfl := Option.some.inj (he.symm.trans he')
      exact .inl ⟨iter, e, rfl, he, hm, (Except.ok.inj hr).symm, hlt⟩
  | _ => exact .inr ⟨by simp, (Except.ok.inj hr).symm⟩

/-- What the checks before any reservation establish. -/
lemma admitCheck_eq_ok (ha : s.admitCheck p = .ok a) :
    a.bytes = s.bytes + a.charged ∧ a.bytes ≤ s.limits.bytes ∧ a.edges = s.edges + p.edges ∧
      p.bytes = .ok a.charged ∧ ¬ (s.free = [] ∧ s.slots.length = s.limits.entries) ∧
      s.admitReaders p = .ok a.readers := by
  unfold admitCheck at ha
  simp only [Except.bind_eq_ok, ensure_eq_ok, okOr_eq_ok] at ha
  obtain ⟨-, -, -, -, charged, hch, bytes, hby, -, hcap, -, -, readers, hrd, edges, hed, ha⟩ := ha
  obtain rfl := Except.ok.inj ha
  have := checkedAdd_eq_some hby
  have := checkedAdd_eq_some hed
  refine ⟨by assumption, ?_, by assumption, hch, fun hh => hcap (.inr (.inr hh)), hrd⟩
  by_contra hn
  exact hcap (.inl (by simpa using hn))

/-- A slot is reserved together with its place on the free list. -/
lemma reserveFree_spec (hf : s.free = []) :
    wp reserveFree (fun _ t => Reserved s t ∧ s.slots.length + 1 ≤ t.freeCap)
      (fun _ t => Reserved s t) s := by
  refine wp_get_bind.2 ?_
  rcases hg : grow s.freeCap s.free.length (s.slots.length + 1 - s.free.length) with _ | cap
  · have hle := grow_eq_none hg
    rw [hf, List.length_nil] at hle
    exact ⟨.refl s, by omega⟩
  · have hcap := grow_eq_some hg
    rw [hf, List.length_nil] at hcap
    refine wp_seq (alloc_spec _) (fun _ _ ⟨a, hr⟩ => hr ▸ .spent a) ?_
    rintro - _ ⟨a, rfl⟩
    rw [wp_update]
    refine ⟨⟨rfl, hcap.1, Nat.le_refl _⟩, ?_⟩
    change s.slots.length + 1 ≤ cap
    omega

lemma reserveTable_spec :
    wp reserveTable (fun _ t => Reserved s t ∧ t.freeCap = s.freeCap) (fun _ t => Reserved s t) s := by
  refine wp_get_bind.2 ?_
  rcases grow s.slotCap s.slots.length 1 with _ | cap
  · exact ⟨.refl s, rfl⟩
  · refine wp_seq (alloc_spec _) (fun _ _ ⟨a, hr⟩ => hr ▸ .spent a) ?_
    rintro - _ ⟨a, rfl⟩
    rw [wp_update]
    exact ⟨⟨rfl, Nat.le_refl _, Nat.le_refl _⟩, rfl⟩

lemma reserveSlot_spec :
    wp reserveSlot
      (fun _ t => Reserved s t ∧ (s.free = [] → s.slots.length + 1 ≤ t.freeCap))
      (fun _ t => Reserved s t) s := by
  unfold reserveSlot
  rw [wp_get_bind]
  split_ifs with hf
  · refine wp_seq (reserveFree_spec hf) (fun _ _ h => h) ?_
    rintro - t ⟨hr, hcap⟩
    refine wp_mono reserveTable_spec ?_ fun _ _ h => hr.trans h
    rintro - u ⟨hu, hsame⟩
    exact ⟨hr.trans hu, fun _ => hsame ▸ hcap⟩
  · exact ⟨.refl s, fun h => absurd h hf⟩

/-- The outcome of a successful admission. -/
structure Admission (p : Payload) (s t : Store) (h : Handle) : Prop where
  fresh : s.at? h = none
  children : LiveChildren p s
  shape : ∃ w i g rest a, Vacant s w i g rest ∧ h = ⟨i, g⟩ ∧ t = w.published i p a rest ∧
    p.bytes = .ok a.charged ∧ s.admitReaders p = .ok a.readers

/-- Retaining the children of a payload, from a store as it stands. -/
lemma retainChildren_start (u : Store) (p : Payload) :
    wp (retainChildren [] p.children)
      (fun _ t => t = u.bump (refsIn p.children) ∧ LiveChildren p u) (fun _ t => t = u) u := by
  have h0 : u.bump (refsIn []) = u := bump_zero u
  have := @retainChildren_spec u [] p.children (by simp)
  rw [h0] at this
  exact this

lemma Reserved.vacant_reused (hr : Reserved s u) (ht : Table s) (hf : s.free = i :: rest)
    (hs : s.slots[i]? = some ⟨g, none⟩) : Vacant s u i g rest where
  cells := hr.cell
  slot := by rw [hr.slots, hs]
  generation j _ := by rw [hr.slots]
  gen_le := ht.generation i _ hs
  origin := .inl (by rw [hf]; exact List.mem_cons_self)
  rest_free j hj := by
    have := ht.free_nodup
    rw [hf, List.nodup_cons] at this
    refine ⟨by rw [hf]; exact List.mem_cons_of_mem _ hj, ?_⟩
    rintro rfl
    exact this.1 hj
  free_rest j hj hji := by
    rw [hf] at hj
    exact (List.mem_cons.1 hj).resolve_left hji
  rest_nodup := by
    have := ht.free_nodup
    rw [hf, List.nodup_cons] at this
    exact this.2
  cap := by
    rw [hr.slots]
    exact ht.free_cap.trans hr.free_le
  length_le := by
    rw [hr.slots]
    exact ht.slots_le
  fields := ⟨hr.closed, hr.limits, hr.first, hr.last, hr.work, hr.edges, hr.bytes, hr.live⟩

lemma Reserved.vacant_pushed (hr : Reserved s u) (ht : Table s) (hf : s.free = [])
    (hcap : s.slots.length + 1 ≤ u.freeCap) (hlen : s.slots.length ≠ s.limits.entries) :
    Vacant s { u with slots := u.slots ++ [⟨1, none⟩] } s.slots.length 1 [] where
  cells j := by
    unfold Store.cell
    rw [hr.slots]
    rcases Nat.lt_trichotomy j s.slots.length with hj | rfl | hj
    · rw [List.getElem?_append_left hj]
    · rw [List.getElem?_append_right (Nat.le_refl _), List.getElem?_eq_none (Nat.le_refl _)]
      simp
    · rw [List.getElem?_eq_none (by rw [List.length_append, List.length_singleton]; omega),
        List.getElem?_eq_none (by omega)]
  slot := by
    change (u.slots ++ [⟨1, none⟩])[s.slots.length]? = _
    rw [hr.slots, List.getElem?_append_right (Nat.le_refl _)]
    simp
  generation j hj := by
    change (u.slots ++ [⟨1, none⟩])[j]?.map Slot.generation = _
    rw [hr.slots]
    rcases Nat.lt_or_gt_of_ne hj with hlt | hgt
    · rw [List.getElem?_append_left hlt]
    · rw [List.getElem?_eq_none (by rw [List.length_append, List.length_singleton]; omega),
        List.getElem?_eq_none (by omega)]
  gen_le := by decide
  origin := .inr (Nat.le_refl _)
  rest_free j hj := by cases hj
  free_rest j hj := by
    rw [hf] at hj
    cases hj
  rest_nodup := List.nodup_nil
  cap := by
    change (u.slots ++ [(⟨1, none⟩ : Slot)]).length ≤ u.freeCap
    rw [hr.slots, List.length_append, List.length_singleton]
    exact hcap
  length_le := by
    change (u.slots ++ [(⟨1, none⟩ : Slot)]).length ≤ s.limits.entries
    have := ht.slots_le
    rw [hr.slots, List.length_append, List.length_singleton]
    omega
  fields := ⟨hr.closed, hr.limits, hr.first, hr.last, hr.work, hr.edges, hr.bytes, hr.live⟩

/-- A failed admission leaves only reserved capacity behind; a successful one publishes its
payload, with the counts and the table in order. -/
lemma admit_spec (hi : Inv own held s) (p : Payload) :
    wp (admitPayload p)
      (fun r t => ∃ h, r = .heap h ∧ Admission p s t h ∧
        Counts (own + (Value.heap h).refs) (heldEdges held) t ∧ Table t)
      (fun _ t => Reserved s t) s := by
  unfold admitPayload
  refine wp_read_bind (fun _ _ => .refl s) fun a ha => ?_
  obtain ⟨hby, hle, hed, hch, hfull, hrd⟩ := admitCheck_eq_ok ha
  refine wp_seq (reserveWork_spec _ _) (fun _ _ h => h) ?_
  rintro - s₁ ⟨hr₁, hroom⟩
  refine wp_seq reserveSlot_spec (fun _ _ h => hr₁.trans h) ?_
  rintro - s₂ ⟨hr₂, hcap⟩
  have hr := hr₁.trans hr₂
  have hroom₂ : a.edges + s.work.length + 1 ≤ s₂.workCap := by
    have := hr₂.work_le
    omega
  rw [wp_get_bind]
  -- The end of both branches: the children are retained and the entry is published.
  have hdone : ∀ (w : Store) (i g : Nat) (rest : List Nat), Vacant s w i g rest →
      a.edges + s.work.length + 1 ≤ w.workCap → LiveChildren p s →
      ∃ h, Value.heap ⟨i, g⟩ = .heap h ∧ Admission p s (w.published i p a rest) h ∧
        Counts (own + (Value.heap h).refs) (heldEdges held) (w.published i p a rest) ∧
        Table (w.published i p a rest) := fun w i g rest hv hw hp =>
    ⟨⟨i, g⟩, rfl, ⟨hv.fresh g, hp, w, i, g, rest, a, hv, rfl, rfl, hch, hrd⟩,
      hi.counts.published hi.table hv hp hby hle hed hw, hi.table.published hv⟩
  rcases hf : s₂.free with _ | ⟨i, rest⟩
  · have hfs : s.free = [] := hr.free ▸ hf
    have hlen : s.slots.length ≠ s.limits.entries := fun hl => hfull ⟨hfs, hl⟩
    have hls : s₂.slots.length = s.slots.length := by rw [hr.slots]
    have hmax : ¬ s₂.slots.length > u32Max := by
      have := hi.table.slots_le
      have := hi.table.entries_le
      omega
    have hcap' : s.slots.length + 1 ≤ s₂.freeCap := by
      have := hcap (hr₁.free ▸ hfs)
      rw [hr₁.slots] at this
      exact this
    simp only [hmax, if_false]
    rw [wp_update_bind, wp_bind, wp_attempt]
    refine wp_mono (retainChildren_start _ p) ?_ ?_
    · rintro - t ⟨rfl, hp⟩
      rw [wp_update_bind, wp_pure, hls]
      have hv := hr.vacant_pushed hi.table hfs hcap' hlen
      have hp' : LiveChildren p s := fun k hk => hv.at? k ▸ hp k hk
      rw [publish_eq_published (w := { s₂ with slots := s₂.slots ++ [⟨1, none⟩] }) hf]
      exact hdone _ _ _ _ hv hroom₂ hp'
    · rintro e t rfl
      rw [wp_update_bind, wp_fail]
      simp only [List.dropLast_concat]
      exact hr
  · have hfs : s.free = i :: rest := hr.free ▸ hf
    obtain ⟨hlt, hnone⟩ := hi.table.free_vacant i (by rw [hfs]; exact List.mem_cons_self)
    obtain ⟨sl, hsl⟩ : ∃ sl, s.slots[i]? = some sl := ⟨_, List.getElem?_eq_getElem hlt⟩
    obtain ⟨g, o⟩ := sl
    obtain rfl : o = none := cell_eq_none_iff.1 hnone _ hsl
    have hsl₂ : s₂.slots[i]? = some ⟨g, none⟩ := by rw [hr.slots, hsl]
    simp only [hsl₂]
    have hv := hr.vacant_reused hi.table hfs hsl
    refine wp_seq (retainChildren_start s₂ p) (fun _ _ h => h ▸ hr) ?_
    rintro - t ⟨rfl, hp⟩
    rw [wp_update_bind, wp_pure]
    have hp' : LiveChildren p s := fun k hk => hv.at? k ▸ hp k hk
    exact hdone s₂ i g rest hv hroom₂ hp'

/-! ## Leases of an admitted payload -/

/-- Nothing refers to a handle that is not live. -/
lemma Inv.refs_eq_zero (hi : Inv own held s) (hk : s.at? k = none) :
    own k = 0 ∧ s.sum (·.refs k) = 0 ∧ s.sum (·.leases k) = 0 ∧ s.sum (·.holds k) = 0 ∧
      heldAt held k = 0 := by
  have hb := hi.counts.balance k
  unfold strongAt at hb
  rw [hk] at hb
  simp only [Option.elim_none] at hb
  have hle : s.sum (·.leases k) + s.sum (·.holds k) ≤ s.sum (·.refs k) := by
    unfold sum
    rw [← total_add]
    exact total_le_total fun _ x _ => x.payload.leases_add_holds_le_refs k
  refine ⟨by omega, by omega, by omega, by omega, if_neg fun hm => ?_⟩
  rw [Option.map_eq_some_iff] at hm
  obtain ⟨d, hd, rfl⟩ := hm
  have := hi.held_owned d hd
  omega

lemma Admission.lookup_new (ha : Admission p s t h) (ht : Table s) :
    ∃ charged, p.bytes = .ok charged ∧ t.at? h = some (newEntry s.last charged p) := by
  obtain ⟨w, i, g, rest, a, hv, rfl, rfl, hb, -⟩ := ha.shape
  exact ⟨a.charged, hb, at?_published_new hv ht⟩

/-- An older entry keeps everything but its count, its reader count and its link. -/
lemma Admission.lookup_old (ha : Admission p s t h) (ht : Table s) (hk : k ≠ h) :
    ∃ a i, s.admitReaders p = .ok a.readers ∧ t.at? k = (s.at? k).map (grown p a i s.last k) := by
  obtain ⟨w, i, g, rest, a, hv, rfl, rfl, -, hr⟩ := ha.shape
  exact ⟨a, i, hr, at?_published_old hv ht hk⟩

lemma Admission.sum (ha : Admission p s t h) (ht : Table s) (φ : Payload → Nat) :
    t.sum φ = s.sum φ + φ p := by
  obtain ⟨w, i, g, rest, a, hv, rfl, rfl, -, -⟩ := ha.shape
  exact sum_published hv ht φ

/-- The byte counter after an admission. -/
lemma Admission.bytes_eq {own' : Handle → Nat} {extra charged : Nat} (ha : Admission p s t h)
    (hi : Inv own held s) (hc : Counts own' extra t) (hb : p.bytes = .ok charged) :
    t.bytes = s.bytes + charged := by
  obtain ⟨w, i, g, rest, a, hv, rfl, rfl, hab, -⟩ := ha.shape
  obtain rfl := Except.ok.inj (hab.symm.trans hb)
  rw [hc.bytes, hi.counts.bytes, total_published hv hi.table fun _ _ _ => rfl]
  rfl

lemma Admission.fields (ha : Admission p s t h) : t.work = s.work ∧ t.limits = s.limits := by
  obtain ⟨w, i, g, rest, a, hv, rfl, rfl, -, -⟩ := ha.shape
  obtain ⟨-, hli, -, hwo, -, -, -, -, -, -⟩ :=
    publish_fields (s := w.bump (refsIn p.children)) (i := i) (p := p) (a := a)
  exact ⟨hwo.trans hv.fields.2.2.2.2.1, hli.trans hv.fields.2.1⟩

/-- Reader counts after an admission, with the leases and holds of the new payload still to be
taken, unless admission took them itself. -/
lemma Admission.leases (hi : Inv own held s) (ha : Admission p s t h) (k : Handle) (x : Entry)
    (hx : t.at? k = some x) :
    (k = h ∧ x.readers = 0 ∧ t.sum (·.leases k) = 0 ∧ t.sum (·.holds k) + heldAt held k = 0) ∨
    ∃ y, k ≠ h ∧ s.at? k = some y ∧ x.payload = y.payload ∧ x.chargedBytes = y.chargedBytes ∧
      LeaseOk y (s.sum (·.leases k)) (s.sum (·.holds k) + heldAt held k) ∧
      ((∃ iter, p = .vectorIterator iter) ∧ LeaseOk x (t.sum (·.leases k))
          (t.sum (·.holds k) + heldAt held k) ∨
        (∀ iter, p ≠ .vectorIterator iter) ∧ x.readers = y.readers) := by
  by_cases hk : k = h
  · subst hk
    obtain ⟨charged, -, hnew⟩ := ha.lookup_new hi.table
    rw [hnew] at hx
    obtain rfl := Option.some.inj hx
    obtain ⟨-, -, hl, hh, hheld⟩ := hi.refs_eq_zero ha.fresh
    have hp := ha.children.refs_eq_zero ha.fresh
    have hle := p.leases_add_holds_le_refs k
    rw [ha.sum hi.table, ha.sum hi.table]
    exact .inl ⟨rfl, rfl, by omega, by omega⟩
  · obtain ⟨a, i, hr, hold⟩ := ha.lookup_old hi.table hk
    rw [hold, Option.map_eq_some_iff] at hx
    obtain ⟨y, hy, rfl⟩ := hx
    have hok := hi.leases k y hy
    refine .inr ⟨y, hk, hy, rfl, rfl, hok, ?_⟩
    rcases admitReaders_eq_ok hr with ⟨iter, e, rfl, he, hm, hae, hlt⟩ | ⟨hv, hae⟩
    · refine .inl ⟨⟨iter, rfl⟩, ?_⟩
      rw [ha.sum hi.table, ha.sum hi.table]
      have hh0 : (Payload.vectorIterator iter).holds k = 0 := rfl
      by_cases hki : k = iter.handle
      · subst hki
        obtain rfl := Option.some.inj (hy.symm.trans he)
        have h1 : (Payload.vectorIterator iter).leases iter.handle = 1 := if_pos rfl
        have hread : (grown (.vectorIterator iter) a i s.last iter.handle y).readers =
            y.readers + 1 := by
          simp [grown, adopted, leasedReaders, hae]
        rcases hok with ⟨b, c, d⟩ | ⟨-, -, -, d⟩
        · exact .inl ⟨by omega, by omega, by omega⟩
        · rw [d] at hm
          cases hm
      · have h0 : (Payload.vectorIterator iter).leases k = 0 := if_neg fun hh =>
          hki (Option.some.inj hh).symm
        have hslot : iter.handle.slot ≠ k.slot := fun hs => hki (eq_of_slot_eq hy he hs.symm)
        have hread : (grown (.vectorIterator iter) a i s.last k y).readers = y.readers := by
          simp [grown, adopted, leasedReaders, hae, hslot]
        rcases hok with ⟨b, c, d⟩ | ⟨b, c, d, f⟩
        · exact .inl ⟨by omega, by omega, by omega⟩
        · exact .inr ⟨by omega, by omega, by omega, f⟩
    · refine .inr ⟨hv, ?_⟩
      change leasedReaders p a.readers k.slot y.readers = y.readers
      rw [hae]
      cases p <;> rfl

/-- A payload that leases nothing, or whose lease admission takes, is admitted with all of the
invariant. -/
lemma Admission.inv (hi : Inv own held s) (ha : Admission p s t h)
    (hc : Counts (own + (Value.heap h).refs) (heldEdges held) t) (ht : Table t)
    (hp : (∃ iter, p = .vectorIterator iter) ∨ p.lease = none ∧ p.exclusive = none) :
    Inv (own + (Value.heap h).refs) held t where
  counts := hc
  table := ht
  leases := by
    intro k x hx
    rcases ha.leases hi k x hx with ⟨rfl, hr, hl, hh⟩ | ⟨y, hk, hy, hpay, -, hok, hcase⟩
    · exact .inl ⟨by omega, by omega, by rw [hl]; decide⟩
    · rcases hcase with ⟨-, hok'⟩ | ⟨hv, hread⟩
      · exact hok'
      · rcases hp with ⟨iter, rfl⟩ | ⟨hl, hx⟩
        · exact absurd rfl (hv iter)
        · have h1 : p.leases k = 0 := by simp [Payload.leases, hl]
          have h2 : p.holds k = 0 := by simp [Payload.holds, hx]
          rw [ha.sum hi.table, ha.sum hi.table, h1, h2, Nat.add_zero, Nat.add_zero]
          rcases hok with ⟨b, c, d⟩ | ⟨b, c, d, f⟩
          · exact .inl ⟨b, by omega, d⟩
          · exact .inr ⟨b, c, by omega, hpay.trans f⟩
  held_owned := fun d hd => (hi.held_owned d hd).trans (Nat.le_add_right _ _)

/-- Admission of an ordinary payload. -/
lemma admit_inv (hi : Inv own held s)
    (hp : (∃ iter, p = .vectorIterator iter) ∨ p.lease = none ∧ p.exclusive = none) :
    wp (admitPayload p)
      (fun r t => ∃ h, r = .heap h ∧ Admission p s t h ∧ Inv (own + r.refs) held t)
      (fun _ t => Reserved s t) s := by
  refine wp_mono (admit_spec hi p) ?_ fun _ _ h => h
  rintro _ t ⟨h, rfl, ha, hc, ht⟩
  exact ⟨h, rfl, ha, ha.inv hi hc ht hp⟩

end Store

end Rnx
