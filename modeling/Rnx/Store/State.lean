import Mathlib.Algebra.BigOperators.Group.Finset.Basic
import Mathlib.Algebra.BigOperators.Intervals
import Mathlib.Algebra.Order.BigOperators.Group.Finset
import Rnx.Lib.ErrState
import Rnx.Store.Value

/-!
# The store

The state of `heap.rs`: a table of generational slots, the free and release lists, the
allocation order threaded through the entries, and the counters.  An entry's payload is kept
without the source's `Option`: `None` only ever occurs in an entry that has already left its
slot.

The three bookkeeping vectors grow by amortised reservation, so their capacities are part of the
state; whether an allocation succeeds is read off a stream of answers, one per allocation, so
that a statement about every store is a statement about every choice of failing allocations.

The second half of the module is the calculus the invariant is stated in: `Store.at?` looks a
handle up, and `Store.total` sums a quantity over the live entries.
-/

namespace Rnx

/-! ## Payloads -/

/-- A cursor over a leased container. -/
structure Iter where
  handle : Handle
  index : Nat
deriving DecidableEq

/-- A sort in progress: the parent it leases exclusively, its two index banks and the elements it
holds while active. -/
structure SortState where
  parent : Handle
  active : Bool
  banks : Buf Nat × Buf Nat
  values : Buf Value
deriving DecidableEq

/-- A range with a shape other than `start..end`. -/
structure RangeShape where
  tag : Ty
  start : Option Value
  finish : Option Value
deriving DecidableEq

/-- A cursor over scalars; an inclusive end has a separate exhausted bit. -/
structure RangeCursor where
  next : Value
  finish : Option Value
  done : Bool
deriving DecidableEq

/-- What a split separates at. -/
inductive Pattern
  | string (text : Text)
  | char (c : Char)
deriving DecidableEq

/-- A split in progress, by byte offsets. -/
structure Split where
  pattern : Pattern
  start : Nat
  upto : Nat
deriving DecidableEq

/-- The iterator kinds that share one boxed payload. -/
inductive BoxedKind
  | range (cursor : RangeCursor)
  | split (state : Split)
  | chars (offset : Nat)
  | skip (remaining : Nat)
  | take (remaining : Nat)
deriving DecidableEq

/-- A boxed iterator and the entry it draws from. -/
structure BoxedState where
  source : Option Handle
  kind : BoxedKind
deriving DecidableEq

/-- The contents of an entry. -/
inductive Payload
  | moved (tag : Ty)
  | string (text : Text)
  | variant (tag : Ty) (success : Bool) (payload : Option Value)
  | range (start finish : I64)
  | valueRange (start finish : Value)
  | vectorIterator (iter : Iter)
  | optionIterator (payload : Option Value)
  | rangeIterator (next finish : I64)
  | valueRangeIterator (next finish : Value)
  | record (tag : Ty) (fields : Buf (Text × Value))
  | list (tag : Ty) (values : Buf Value)
  | closure (code function : Nat) (captures : Buf Value)
  | sortGuard (state : SortState)
  | otherRange (shape : RangeShape)
  | otherRangeIterator (state : BoxedState)
deriving DecidableEq

/-- `size_of::<Value>()`. -/
def sizeValue : Nat := 16

/-- `size_of::<(String, Value)>()`. -/
def sizeField : Nat := 40

/-- `size_of::<RangeShape>()`. -/
def sizeRangeShape : Nat := 40

/-- `size_of::<boxed_iterator::State>()`. -/
def sizeBoxedState : Nat := 56

/-- `size_of::<SortState>()`. -/
def sizeSortState : Nat := 88

/-- `size_of::<usize>()`. -/
def sizeUsize : Nat := 8

/-- `SortState::bytes`: both banks and the state itself. -/
def SortState.bytes (st : SortState) : Except Error Nat :=
  okOr (((checkedAdd st.banks.1.capacity st.banks.2.capacity).bind (checkedMul · sizeUsize)).bind
    (checkedAdd · sizeSortState)) (err .storeCapacity)

namespace Payload

/-- The key capacities of a record added to `n`, checking every addition. -/
def keyBytes (n : Nat) (fields : List (Text × Value)) : Option Nat :=
  fields.foldl (fun acc f => acc.bind (checkedAdd · f.1.capacity)) (some n)

/-- The bytes a payload is charged on admission. -/
def bytes : Payload → Except Error Nat
  | moved _ => .ok 0
  | sortGuard st => st.bytes
  | otherRange _ => .ok sizeRangeShape
  | otherRangeIterator _ => .ok sizeBoxedState
  | string t => .ok t.capacity
  | range _ _ => .ok 16
  | valueRange _ _ | valueRangeIterator _ _ => .ok (2 * sizeValue)
  | variant _ _ _ | vectorIterator _ | optionIterator _ | rangeIterator _ _ => .ok sizeValue
  | list _ values => okOr (checkedMul values.capacity sizeValue) (err .overflow)
  | closure _ _ captures => okOr (checkedMul captures.capacity sizeValue) (err .overflow)
  | record _ fields =>
      okOr ((checkedMul fields.capacity sizeField).bind (keyBytes · fields.items))
        (err .overflow)

/-- The child values of a payload, in construction order. -/
def children : Payload → List Value
  | otherRangeIterator st => (st.source.map Value.heap).toList
  | moved _ | string _ | range _ _ | rangeIterator _ _ | valueRangeIterator _ _ => []
  | variant _ _ payload | optionIterator payload => payload.toList
  | vectorIterator iter => [.heap iter.handle]
  | sortGuard st => .heap st.parent :: st.values.items
  | record _ fields => fields.items.map Prod.snd
  | list _ values => values.items
  | closure _ _ captures => captures.items
  | valueRange start finish => [start, finish]
  | otherRange shape => shape.start.toList ++ shape.finish.toList

/-- The type tag of a payload. -/
def tag : Payload → Ty
  | moved t => t
  | string _ => .string
  | range _ _ | valueRange _ _ => .range
  | otherRange shape => shape.tag
  | variant t _ _ => t
  | otherRangeIterator _ | sortGuard _ | vectorIterator _ | optionIterator _ | rangeIterator _ _
  | valueRangeIterator _ _ => .iterator
  | list t _ | record t _ => t
  | closure _ _ _ => .function

/-- `Store::payload_edges`: the child values that are handles. -/
def edges (p : Payload) : Nat := edgesIn p.children

/-- Whether the payload was moved out. -/
def isMoved : Payload → Bool
  | moved _ => true
  | _ => false

/-- The entry a payload holds a shared lease on. -/
def lease : Payload → Option Handle
  | vectorIterator iter => some iter.handle
  | otherRangeIterator ⟨source, .chars _⟩ | otherRangeIterator ⟨source, .split _⟩ => source
  | _ => none

/-- The entry a payload holds exclusively. -/
def exclusive : Payload → Option Handle
  | sortGuard st => if st.active then some st.parent else none
  | _ => none

/-- The references to `h` a payload owns. -/
def refs (p : Payload) (h : Handle) : Nat := refsIn p.children h

/-- One if the payload leases `h`. -/
def leases (p : Payload) (h : Handle) : Nat := if p.lease = some h then 1 else 0

/-- One if the payload holds `h` exclusively. -/
def holds (p : Payload) (h : Handle) : Nat := if p.exclusive = some h then 1 else 0

/-- Every lease and every exclusive hold comes with a reference of its own. -/
lemma leases_add_holds_le_refs (p : Payload) (h : Handle) : p.leases h + p.holds h ≤ p.refs h := by
  unfold leases holds refs
  cases p with
  | sortGuard st =>
      by_cases hp : st.active = true ∧ st.parent = h
      · obtain ⟨_, rfl⟩ := hp
        have : (if exclusive (.sortGuard st) = some st.parent then 1 else 0) ≤ 1 := by
          split_ifs <;> omega
        simp only [lease, children, refsIn_cons, Value.refs_self, reduceCtorEq, if_false]
        omega
      · have : ¬ exclusive (.sortGuard st) = some h := by
          simp only [exclusive]
          split_ifs with ha <;> simp_all
        simp [lease, this]
  | vectorIterator iter =>
      by_cases hp : iter.handle = h
      · subst hp
        simp [lease, exclusive, children]
      · simp [lease, exclusive, hp]
  | otherRangeIterator st =>
      obtain ⟨source, kind⟩ := st
      by_cases hp : source = some h
      · subst hp
        cases kind <;> simp [lease, exclusive, children]
      · cases kind <;> simp [lease, exclusive, hp]
  | _ => simp [lease, exclusive]

end Payload

/-! ## Entries and the store -/

/-- An entry: its links in allocation order, its owners, its readers and what it was charged. -/
structure Entry where
  previous : Option Nat
  next : Option Nat
  strong : Nat
  readers : Nat
  chargedBytes : Nat
  clonePath : Bool
  payload : Payload
deriving DecidableEq

/-- A slot of the table. -/
structure Slot where
  generation : Nat
  entry : Option Entry
deriving DecidableEq

/-- Capacity limits. -/
structure Limits where
  entries : Nat
  bytes : Nat
deriving DecidableEq

/-- The store.  The top of `free` and of `work` is the head of the list. -/
structure Store where
  id : Nat
  closed : Bool
  limits : Limits
  slots : List Slot
  free : List Nat
  work : List Value
  opaqueNames : List (Handle × TypeName)
  opaqueSweepAt : Nat
  edges : Nat
  first : Option Nat
  last : Option Nat
  live : Nat
  bytes : Nat
  slotCap : Nat
  freeCap : Nat
  workCap : Nat
  opaqueCap : Nat
  /-- The answers of the allocator to come: `true` grants the next allocation. -/
  allocator : Nat → Bool
  /-- The process-wide table of declared types. -/
  nominals : Nominals

/-- A store operation: an error leaves behind whatever was written before it. -/
abbrev M := ErrState Error Store

/-- The reader count of an exclusively held entry. -/
def exclusiveReaders : Nat := u32Max

namespace Store

variable {s t : Store} {h k : Handle} {e : Entry} {i j : Nat}

/-! ## Lookup -/

/-- The occupied slot `i`, with the handle that names it. -/
def cell (s : Store) (i : Nat) : Option (Handle × Entry) :=
  s.slots[i]?.bind fun sl => sl.entry.map fun e => (⟨i, sl.generation⟩, e)

/-- The entry a handle names, if its slot is occupied in the handle's generation. -/
def at? (s : Store) (h : Handle) : Option Entry :=
  (s.cell h.slot).bind fun p => if p.1 = h then some p.2 else none

lemma at?_eq_some : s.at? h = some e ↔ s.cell h.slot = some (h, e) := by
  unfold at?
  rcases s.cell h.slot with _ | ⟨k, e'⟩
  · simp
  · simp only [Option.bind_some, Option.some.injEq, Prod.mk.injEq]
    split_ifs with hk <;> simp [hk]

lemma cell_handle_slot {p : Handle × Entry} (hc : s.cell i = some p) : p.1.slot = i := by
  unfold cell at hc
  rw [Option.bind_eq_some_iff] at hc
  obtain ⟨sl, -, hc⟩ := hc
  rw [Option.map_eq_some_iff] at hc
  obtain ⟨e, -, rfl⟩ := hc
  rfl

lemma at?_of_cell {p : Handle × Entry} (hc : s.cell i = some p) : s.at? p.1 = some p.2 := by
  have hs := cell_handle_slot hc
  rw [at?_eq_some, hs]
  exact hc

/-- Handles of one slot that are both live are equal. -/
lemma eq_of_slot_eq {e' : Entry} (hh : s.at? h = some e) (hk : s.at? k = some e')
    (hs : h.slot = k.slot) : h = k := by
  rw [at?_eq_some] at hh hk
  rw [hs, hk] at hh
  simp only [Option.some.injEq, Prod.mk.injEq] at hh
  exact hh.1.symm

lemma slot_lt (hc : (s.cell i).isSome) : i < s.slots.length := by
  by_contra hlt
  unfold cell at hc
  rw [List.getElem?_eq_none (by omega)] at hc
  simp at hc

/-- `Store::entry`: a live entry of an open store. -/
def entry (s : Store) (h : Handle) : Except Error Entry :=
  if s.closed then .error (err .closedStore) else okOr (s.at? h) (err .invalidHandle)

lemma entry_eq_ok : s.entry h = .ok e ↔ s.closed = false ∧ s.at? h = some e := by
  unfold entry
  cases s.closed <;> simp [okOr_eq_ok]

/-! ## Totals -/

/-- The sum of a quantity over the live entries. -/
def total (φ : Handle → Entry → Nat) (s : Store) : Nat :=
  ∑ i ∈ Finset.range s.slots.length, (s.cell i).elim 0 (fun p => φ p.1 p.2)

/-- The total of a quantity of the payloads. -/
def sum (φ : Payload → Nat) (s : Store) : Nat := s.total (fun _ e => φ e.payload)

/-- Only what sits at the live cells matters. -/
lemma total_congr {φ ψ : Handle → Entry → Nat}
    (hφ : ∀ h e, s.at? h = some e → φ h e = ψ h e) : s.total φ = s.total ψ := by
  refine Finset.sum_congr rfl fun i _ => ?_
  rcases hc : s.cell i with _ | p
  · rfl
  · exact hφ _ _ (at?_of_cell hc)

/-- A single live entry contributes at most the total. -/
lemma le_total (φ : Handle → Entry → Nat) (hh : s.at? h = some e) : φ h e ≤ s.total φ := by
  rw [at?_eq_some] at hh
  have hlt : h.slot < s.slots.length := slot_lt (by rw [hh]; rfl)
  have := Finset.single_le_sum (f := fun i => (s.cell i).elim 0 (fun p => φ p.1 p.2))
    (fun i _ => Nat.zero_le _) (Finset.mem_range.2 hlt)
  simpa [total, hh] using this

lemma le_sum (φ : Payload → Nat) (hh : s.at? h = some e) : φ e.payload ≤ s.sum φ :=
  le_total (fun _ e => φ e.payload) hh

lemma total_le_total {φ ψ : Handle → Entry → Nat}
    (hφ : ∀ h e, s.at? h = some e → φ h e ≤ ψ h e) : s.total φ ≤ s.total ψ := by
  refine Finset.sum_le_sum fun i _ => ?_
  rcases hc : s.cell i with _ | p
  · exact Nat.le_refl _
  · exact hφ _ _ (at?_of_cell hc)

lemma total_add (φ ψ : Handle → Entry → Nat) :
    s.total (fun h e => φ h e + ψ h e) = s.total φ + s.total ψ := by
  unfold total
  rw [← Finset.sum_add_distrib]
  refine Finset.sum_congr rfl fun i _ => ?_
  rcases s.cell i <;> rfl

/-- A positive total has a live entry that contributes. -/
lemma exists_of_total_pos {φ : Handle → Entry → Nat} (hp : 0 < s.total φ) :
    ∃ h e, s.at? h = some e ∧ 0 < φ h e := by
  obtain ⟨i, _, hi⟩ := Finset.exists_ne_zero_of_sum_ne_zero (Nat.ne_of_gt hp)
  rcases hc : s.cell i with _ | p
  · simp [hc] at hi
  · exact ⟨p.1, p.2, at?_of_cell hc, by simpa [hc, Nat.pos_iff_ne_zero] using hi⟩

/-- Two live entries contribute at most the total. -/
lemma add_le_total (φ : Handle → Entry → Nat) {e' : Entry} (hh : s.at? h = some e)
    (hk : s.at? k = some e') (hne : h ≠ k) : φ h e + φ k e' ≤ s.total φ := by
  have hs : h.slot ≠ k.slot := fun hs => hne (eq_of_slot_eq hh hk hs)
  rw [at?_eq_some] at hh hk
  have hlt : h.slot < s.slots.length := slot_lt (by rw [hh]; rfl)
  have hlt' : k.slot < s.slots.length := slot_lt (by rw [hk]; rfl)
  have hsub : ({h.slot, k.slot} : Finset Nat) ⊆ Finset.range s.slots.length := by
    intro i hi
    rcases Finset.mem_insert.1 hi with rfl | hi
    · exact Finset.mem_range.2 hlt
    · rw [Finset.mem_singleton.1 hi]
      exact Finset.mem_range.2 hlt'
  have := Finset.sum_le_sum_of_subset (f := fun i => (s.cell i).elim 0 (fun p => φ p.1 p.2)) hsub
  rw [Finset.sum_pair hs] at this
  simpa [total, hh, hk] using this

/-- A quantity that differs at one slot only changes the total by that difference. -/
lemma total_change_at {φ : Handle → Entry → Nat} (hlen : t.slots.length = s.slots.length)
    (hi : i < s.slots.length)
    (hc : ∀ j, j ≠ i → (t.cell j).elim 0 (fun p => φ p.1 p.2) =
      (s.cell j).elim 0 (fun p => φ p.1 p.2)) :
    t.total φ + (s.cell i).elim 0 (fun p => φ p.1 p.2) =
      s.total φ + (t.cell i).elim 0 (fun p => φ p.1 p.2) := by
  unfold total
  rw [hlen, ← Finset.sum_erase_add _ _ (Finset.mem_range.2 hi),
    ← Finset.sum_erase_add (Finset.range s.slots.length)
      (fun i => (s.cell i).elim 0 (fun p => φ p.1 p.2)) (Finset.mem_range.2 hi)]
  have hrest : ∑ j ∈ (Finset.range s.slots.length).erase i,
        (t.cell j).elim 0 (fun p => φ p.1 p.2) =
      ∑ j ∈ (Finset.range s.slots.length).erase i, (s.cell j).elim 0 (fun p => φ p.1 p.2) :=
    Finset.sum_congr rfl fun j hj => hc j (Finset.ne_of_mem_erase hj)
  omega

/-- A change of one cell changes the total by the difference. -/
lemma total_change {φ : Handle → Entry → Nat} (hlen : t.slots.length = s.slots.length)
    (hi : i < s.slots.length) (hc : ∀ j, j ≠ i → t.cell j = s.cell j) :
    t.total φ + (s.cell i).elim 0 (fun p => φ p.1 p.2) =
      s.total φ + (t.cell i).elim 0 (fun p => φ p.1 p.2) :=
  total_change_at hlen hi fun j hj => by rw [hc j hj]

/-! ## Rewriting one entry -/

/-- Rewrite the entry of slot `i` in place. -/
def modify (s : Store) (i : Nat) (f : Entry → Entry) : Store :=
  { s with slots := s.slots.modify i (fun sl => { sl with entry := sl.entry.map f }) }

@[simp] lemma modify_length (f : Entry → Entry) :
    (s.modify i f).slots.length = s.slots.length := by
  simp [modify]

lemma cell_modify (f : Entry → Entry) :
    (s.modify i f).cell j =
      if j = i then (s.cell i).map (fun p => (p.1, f p.2)) else s.cell j := by
  unfold cell modify
  simp only [List.getElem?_modify]
  by_cases hj : i = j
  · subst hj
    rcases s.slots[i]? with _ | sl
    · simp
    · rcases hs : sl.entry with _ | e <;> simp [hs]
  · have : j ≠ i := fun h => hj h.symm
    simp [hj, this]

/-- After a rewrite of `h` the lookup of any handle. -/
lemma at?_modify (hh : s.at? h = some e) (f : Entry → Entry) :
    (s.modify h.slot f).at? k = if k = h then some (f e) else s.at? k := by
  rw [at?_eq_some] at hh
  unfold at?
  rw [cell_modify]
  by_cases hs : k.slot = h.slot
  · rw [if_pos hs, hs, hh]
    by_cases hk : k = h
    · simp [hk]
    · have : h ≠ k := fun h' => hk h'.symm
      simp [hk, this]
  · have hk : k ≠ h := fun h' => hs (by rw [h'])
    rw [if_neg hs, if_neg hk]

lemma at?_modify_self (hh : s.at? h = some e) (f : Entry → Entry) :
    (s.modify h.slot f).at? h = some (f e) := by
  rw [at?_modify hh, if_pos rfl]

lemma at?_modify_of_ne (hh : s.at? h = some e) (hk : k ≠ h) (f : Entry → Entry) :
    (s.modify h.slot f).at? k = s.at? k := by
  rw [at?_modify hh, if_neg hk]

/-- A rewrite exchanges one entry's contribution. -/
lemma total_modify (φ : Handle → Entry → Nat) (hh : s.at? h = some e) (f : Entry → Entry) :
    (s.modify h.slot f).total φ + φ h e = s.total φ + φ h (f e) := by
  have hc := at?_eq_some.1 hh
  have hlt : h.slot < s.slots.length := slot_lt (by rw [hc]; rfl)
  have := total_change (φ := φ) (s := s) (t := s.modify h.slot f) (modify_length f) hlt
    (fun j hj => by rw [cell_modify, if_neg hj])
  rw [cell_modify, if_pos rfl, hc] at this
  simpa using this

lemma sum_modify (φ : Payload → Nat) (hh : s.at? h = some e) (f : Entry → Entry) :
    (s.modify h.slot f).sum φ + φ e.payload = s.sum φ + φ (f e).payload :=
  total_modify (fun _ e => φ e.payload) hh f

end Store

end Rnx
