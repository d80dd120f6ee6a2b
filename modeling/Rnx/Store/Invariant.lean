import Rnx.Lib.Linked
import Rnx.Store.Release

/-!
# The representation invariant

Ownership is stated with a ghost count `own`: the references to each entry that live outside the
store, in roots, executor slots and the local variables of an operation in progress.  `Counts`
says that every reference is accounted for and that the counters are the sums they cache;
`Table` that the slots, the free list and the allocation order agree; `Leases` that reader
counts are exactly the leases and guards that exist.

While a resize is in progress the store lends a vector's buffer to it.  `Hold` describes that
loan: the entry it was taken from and the number of edges still counted for it.
-/

namespace Rnx

namespace Store

variable {s t : Store} {h k : Handle} {e : Entry}

/-- A buffer on loan to an operation in progress. -/
structure Hold where
  handle : Handle
  edges : Nat

/-- One if `h` is the entry on loan. -/
def heldAt (held : Option Hold) (h : Handle) : Nat := if held.map Hold.handle = some h then 1 else 0

/-- The edges counted for the loan. -/
def heldEdges (held : Option Hold) : Nat := held.elim 0 Hold.edges

/-- The references to `h` the store itself records. -/
def strongAt (s : Store) (h : Handle) : Nat := (s.at? h).elim 0 Entry.strong

lemma strongAt_of_at? (hh : s.at? h = some e) : s.strongAt h = e.strong := by
  unfold strongAt
  rw [hh]
  rfl

/-- Every reference is accounted for, and the counters are the sums they cache. -/
structure Counts (own : Handle → Nat) (extra : Nat) (s : Store) : Prop where
  balance : ∀ h, s.strongAt h = own h + refsIn s.work h + s.sum (·.refs h)
  alive : ∀ h e, s.at? h = some e → 1 ≤ e.strong
  edges : s.edges = s.sum Payload.edges + extra
  bytes : s.bytes = s.total (fun _ e => e.chargedBytes)
  bytes_le : s.bytes ≤ s.limits.bytes
  live : s.live = s.total (fun _ _ => 1)
  queued : ∀ v ∈ s.work, v.isHeap = true
  room : s.edges + s.work.length + 1 ≤ s.workCap

/-- The allocation-order link of slot `i` towards the head. -/
def prevOf (s : Store) (i : Nat) : Option Nat := (s.cell i).bind (·.2.previous)

/-- The allocation-order link of slot `i` towards the tail. -/
def nextOf (s : Store) (i : Nat) : Option Nat := (s.cell i).bind (·.2.next)

/-- The slots, the free list and the allocation order agree. -/
structure Table (s : Store) : Prop where
  isOpen : s.closed = false
  order : ∃ order, Linked s.prevOf s.nextOf s.first s.last order ∧
    ∀ i, i ∈ order ↔ (s.cell i).isSome
  free_nodup : s.free.Nodup
  free_vacant : ∀ i ∈ s.free, i < s.slots.length ∧ s.cell i = none
  vacant_free : ∀ (i : Nat) (sl : Slot), s.slots[i]? = some sl → sl.entry = none → i ∉ s.free →
    sl.generation = u32Max
  generation : ∀ (i : Nat) (sl : Slot), s.slots[i]? = some sl → sl.generation ≤ u32Max
  free_cap : s.slots.length ≤ s.freeCap
  slots_le : s.slots.length ≤ s.limits.entries
  entries_le : s.limits.entries < u32Max
  limit_le : s.limits.bytes ≤ isizeMax

/-- The reader count of one entry is the number of leases on it, or marks the one holder. -/
def LeaseOk (e : Entry) (leases holds : Nat) : Prop :=
  (holds = 0 ∧ e.readers = leases ∧ leases < exclusiveReaders) ∨
    (holds = 1 ∧ leases = 0 ∧ e.readers = exclusiveReaders ∧ e.payload = .moved .vec)

/-- Reader counts are exactly the leases and holds that exist. -/
def Leases (held : Option Hold) (s : Store) : Prop :=
  ∀ h e, s.at? h = some e →
    LeaseOk e (s.sum (·.leases h)) (s.sum (·.holds h) + heldAt held h)

/-- The representation invariant of the store, given the references owned outside it. -/
structure Inv (own : Handle → Nat) (held : Option Hold) (s : Store) : Prop where
  counts : Counts own (heldEdges held) s
  table : Table s
  leases : Leases held s
  held_owned : ∀ d ∈ held, 1 ≤ own d.handle

/-! ## Reservations -/

/-- `t` is `s` with bookkeeping capacity reserved and some allocations spent; nothing else
changed. -/
structure Reserved (s t : Store) : Prop where
  eq : t = { s with
    slotCap := t.slotCap, freeCap := t.freeCap, workCap := t.workCap, opaqueCap := t.opaqueCap,
    allocator := t.allocator }
  free_le : s.freeCap ≤ t.freeCap
  work_le : s.workCap ≤ t.workCap

namespace Reserved

lemma refl (s : Store) : Reserved s s := ⟨rfl, Nat.le_refl _, Nat.le_refl _⟩

lemma trans {u : Store} (h : Reserved s t) (h' : Reserved t u) : Reserved s u := by
  refine ⟨?_, h.free_le.trans h'.free_le, h.work_le.trans h'.work_le⟩
  have := h'.eq
  rw [h.eq] at this
  exact this

lemma slots (h : Reserved s t) : t.slots = s.slots := by rw [h.eq]
lemma free (h : Reserved s t) : t.free = s.free := by rw [h.eq]
lemma work (h : Reserved s t) : t.work = s.work := by rw [h.eq]
lemma edges (h : Reserved s t) : t.edges = s.edges := by rw [h.eq]
lemma bytes (h : Reserved s t) : t.bytes = s.bytes := by rw [h.eq]
lemma live (h : Reserved s t) : t.live = s.live := by rw [h.eq]
lemma first (h : Reserved s t) : t.first = s.first := by rw [h.eq]
lemma last (h : Reserved s t) : t.last = s.last := by rw [h.eq]
lemma closed (h : Reserved s t) : t.closed = s.closed := by rw [h.eq]
lemma limits (h : Reserved s t) : t.limits = s.limits := by rw [h.eq]

lemma cell (h : Reserved s t) (i : Nat) : t.cell i = s.cell i := by
  unfold Store.cell
  rw [h.slots]

lemma at? (h : Reserved s t) (k : Handle) : t.at? k = s.at? k := by
  unfold Store.at?
  rw [h.cell]

lemma total (h : Reserved s t) (φ : Handle → Entry → Nat) : t.total φ = s.total φ := by
  unfold Store.total
  rw [h.slots]
  simp only [h.cell]

lemma sum (h : Reserved s t) (φ : Payload → Nat) : t.sum φ = s.sum φ := h.total _

end Reserved

/-! ## Agreement of two stores on their table -/

/-- Two stores whose cells carry the same links, in the same slots. -/
structure SameTable (s t : Store) : Prop where
  closed : t.closed = s.closed
  limits : t.limits = s.limits
  first : t.first = s.first
  last : t.last = s.last
  free : t.free = s.free
  freeCap : s.freeCap ≤ t.freeCap
  length : t.slots.length = s.slots.length
  generation : ∀ i : Nat, t.slots[i]?.map Slot.generation = s.slots[i]?.map Slot.generation
  links : ∀ i, (t.cell i).map (fun p => (p.1, p.2.previous, p.2.next)) =
    (s.cell i).map (fun p => (p.1, p.2.previous, p.2.next))

namespace SameTable

lemma isSome (hs : SameTable s t) (i : Nat) : (t.cell i).isSome = (s.cell i).isSome := by
  have := congrArg Option.isSome (hs.links i)
  simpa using this

lemma prevOf (hs : SameTable s t) : t.prevOf = s.prevOf := by
  funext i
  have := congrArg (fun o => o.bind (fun x => x.2.1)) (hs.links i)
  simpa [Store.prevOf, Option.bind_map, Function.comp_def] using this

lemma nextOf (hs : SameTable s t) : t.nextOf = s.nextOf := by
  funext i
  have := congrArg (fun o => o.bind (fun x => x.2.2)) (hs.links i)
  simpa [Store.nextOf, Option.bind_map, Function.comp_def] using this

lemma trans {u : Store} (hs : SameTable s t) (ht : SameTable t u) : SameTable s u where
  closed := ht.closed.trans hs.closed
  limits := ht.limits.trans hs.limits
  first := ht.first.trans hs.first
  last := ht.last.trans hs.last
  free := ht.free.trans hs.free
  freeCap := hs.freeCap.trans ht.freeCap
  length := ht.length.trans hs.length
  generation i := (ht.generation i).trans (hs.generation i)
  links i := (ht.links i).trans (hs.links i)

end SameTable

lemma cell_eq_none_iff {i : Nat} :
    s.cell i = none ↔ ∀ sl, s.slots[i]? = some sl → sl.entry = none := by
  unfold cell
  rcases s.slots[i]? with _ | sl
  · simp
  · rcases hs : sl.entry with _ | e <;> simp [hs]

/-- The table part only depends on the links. -/
lemma Table.of_same (ht : Table s) (hs : SameTable s t) : Table t where
  isOpen := hs.closed.trans ht.isOpen
  order := by
    obtain ⟨order, hl, hm⟩ := ht.order
    refine ⟨order, ?_, fun i => ?_⟩
    · rw [hs.prevOf, hs.nextOf, hs.first, hs.last]
      exact hl
    · rw [hs.isSome]
      exact hm i
  free_nodup := hs.free ▸ ht.free_nodup
  free_vacant := by
    intro i hi
    rw [hs.free] at hi
    obtain ⟨h1, h2⟩ := ht.free_vacant i hi
    have := hs.isSome i
    rw [h2] at this
    exact ⟨hs.length ▸ h1, by simpa using this⟩
  vacant_free := by
    intro i sl hsl he hi
    rw [hs.free] at hi
    have hg := hs.generation i
    rw [hsl] at hg
    obtain ⟨sl', hsl', hge⟩ := Option.map_eq_some_iff.1 hg.symm
    have hnone : s.cell i = none := by
      have h0 : t.cell i = none := cell_eq_none_iff.2 fun x hx => by
        rw [hsl] at hx
        rw [← Option.some.inj hx]
        exact he
      have := hs.isSome i
      rw [h0] at this
      simpa using this.symm
    rw [← hge]
    exact ht.vacant_free i sl' hsl' (cell_eq_none_iff.1 hnone _ hsl') hi
  generation := by
    intro i sl hsl
    have hg := hs.generation i
    rw [hsl] at hg
    obtain ⟨sl', hsl', hge⟩ := Option.map_eq_some_iff.1 hg.symm
    rw [← hge]
    exact ht.generation i sl' hsl'
  free_cap := by
    rw [hs.length]
    exact ht.free_cap.trans hs.freeCap
  slots_le := by
    rw [hs.length, hs.limits]
    exact ht.slots_le
  entries_le := hs.limits ▸ ht.entries_le
  limit_le := hs.limits ▸ ht.limit_le

/-- Rewriting an entry without touching its links keeps the table. -/
lemma sameTable_modify (s : Store) (i : Nat) {f : Entry → Entry}
    (hf : ∀ e, (f e).previous = e.previous ∧ (f e).next = e.next) : SameTable s (s.modify i f) where
  closed := rfl
  limits := rfl
  first := rfl
  last := rfl
  free := rfl
  freeCap := Nat.le_refl _
  length := modify_length f
  generation j := by
    simp only [modify, List.getElem?_modify]
    rcases s.slots[j]? with _ | sl
    · rfl
    · by_cases hj : i = j <;> simp [hj]
  links j := by
    rw [cell_modify]
    split_ifs with hj
    · subst hj
      rcases s.cell j with _ | p
      · rfl
      · simp [hf p.2]
    · rfl

lemma Reserved.sameTable (h : Reserved s t) : SameTable s t where
  closed := h.closed
  limits := h.limits
  first := h.first
  last := h.last
  free := h.free
  freeCap := h.free_le
  length := by rw [h.slots]
  generation i := by rw [h.slots]
  links i := by rw [h.cell]

/-- A reservation keeps the invariant. -/
lemma Inv.reserved {own : Handle → Nat} {held : Option Hold} (hi : Inv own held s)
    (hr : Reserved s t) : Inv own held t where
  counts :=
    { balance := fun h => by
        have := hi.counts.balance h
        unfold strongAt at this ⊢
        rw [hr.at?, hr.work, hr.sum]
        exact this
      alive := fun h e he => hi.counts.alive h e (hr.at? h ▸ he)
      edges := by
        rw [hr.edges, hr.sum]
        exact hi.counts.edges
      bytes := by
        rw [hr.bytes, hr.total]
        exact hi.counts.bytes
      bytes_le := by
        rw [hr.bytes, hr.limits]
        exact hi.counts.bytes_le
      live := by
        rw [hr.live, hr.total]
        exact hi.counts.live
      queued := hr.work ▸ hi.counts.queued
      room := by
        rw [hr.edges, hr.work]
        exact hi.counts.room.trans hr.work_le }
  table := hi.table.of_same hr.sameTable
  leases := by
    intro h e he
    rw [hr.sum, hr.sum]
    exact hi.leases h e (hr.at? h ▸ he)
  held_owned := hi.held_owned

end Store

end Rnx
