import Mathlib.Algebra.Group.Pi.Basic
import Rnx.Store.Invariant

/-!
# Ownership steps

The two elementary steps of every operation that stays within existing entries: rewriting one
entry, which trades references between its payload and the outside, and retaining a value.
Reservations come first because they are all an operation may leave behind when it fails.
-/

namespace Rnx

open ErrState

namespace Store

variable {s t : Store} {h k : Handle} {e : Entry} {own own' : Handle → Nat}
  {held : Option Hold}

/-! ## Rewriting an entry -/

/-- The references counted before and after a rewrite differ by what the payload gained, what the
outside gained and what the count was raised by. -/
lemma Counts.rewrite {extra extra' n b : Nat} (hc : Counts own extra s) (hh : s.at? h = some e)
    (f : Entry → Entry)
    (hown : ∀ k, own' k + (f e).payload.refs k + (if k = h then e.strong else 0) =
      own k + e.payload.refs k + (if k = h then (f e).strong else 0))
    (hstrong : 1 ≤ (f e).strong)
    (hedges : n + e.payload.edges + extra = s.edges + (f e).payload.edges + extra')
    (hbytes : b + e.chargedBytes = s.bytes + (f e).chargedBytes) (hle : b ≤ s.limits.bytes)
    (hroom : n + s.work.length + 1 ≤ s.workCap) :
    Counts own' extra' { s.modify h.slot f with edges := n, bytes := b } where
  balance k := by
    have hsum := sum_modify (·.refs k) hh f
    have hbal := hc.balance k
    have ho := hown k
    change (s.modify h.slot f).strongAt k = own' k + refsIn s.work k +
      (s.modify h.slot f).sum (·.refs k)
    by_cases hk : k = h
    · subst hk
      rw [strongAt_of_at? (at?_modify_self hh f)]
      rw [strongAt_of_at? hh] at hbal
      simp only [if_true] at ho
      omega
    · have hs : (s.modify h.slot f).strongAt k = s.strongAt k := by
        unfold strongAt
        rw [at?_modify_of_ne hh hk]
      simp only [if_neg hk] at ho
      omega
  alive k x hx := by
    change (s.modify h.slot f).at? k = some x at hx
    rw [at?_modify hh] at hx
    split_ifs at hx with hk
    · rw [← Option.some.inj hx]
      exact hstrong
    · exact hc.alive k x hx
  edges := by
    have hsum := sum_modify Payload.edges hh f
    have := hc.edges
    change n = (s.modify h.slot f).sum Payload.edges + extra'
    omega
  bytes := by
    have hsum := total_modify (fun _ e => e.chargedBytes) hh f
    have := hc.bytes
    change b = (s.modify h.slot f).total (fun _ e => e.chargedBytes)
    omega
  bytes_le := hle
  live := by
    have hsum := total_modify (fun _ _ => 1) hh f
    have := hc.live
    change s.live = (s.modify h.slot f).total (fun _ _ => 1)
    omega
  queued := hc.queued
  room := hroom

/-- Two entries rewritten one after the other. -/
def modifyTwo (s : Store) (h k : Handle) (f g : Entry → Entry) : Store :=
  (s.modify h.slot f).modify k.slot g

section Pair

variable {x y : Entry} {f g : Entry → Entry} (hx : s.at? h = some x) (hy : s.at? k = some y)
  (hne : h ≠ k)

include hx hy hne

lemma at?_modifyTwo (j : Handle) : (s.modifyTwo h k f g).at? j =
    if j = k then some (g y) else if j = h then some (f x) else s.at? j := by
  have hy' : (s.modify h.slot f).at? k = some y := by
    rw [at?_modify_of_ne hx (Ne.symm hne)]
    exact hy
  unfold modifyTwo
  rw [at?_modify hy', at?_modify hx]

lemma sum_modifyTwo (φ : Payload → Nat) :
    (s.modifyTwo h k f g).sum φ + φ x.payload + φ y.payload =
      s.sum φ + φ (f x).payload + φ (g y).payload := by
  have hy' : (s.modify h.slot f).at? k = some y := by
    rw [at?_modify_of_ne hx (Ne.symm hne)]
    exact hy
  have h1 := sum_modify φ hx f
  have h2 := sum_modify φ hy' g
  unfold modifyTwo
  omega

/-- References, edges and bytes that pass between two entries stay accounted for. -/
lemma Counts.pair {extra : Nat} (hc : Counts own extra s)
    (hf : (f x).strong = x.strong) (hg : (g y).strong = y.strong)
    (hrefs : ∀ j, (f x).payload.refs j + (g y).payload.refs j =
      x.payload.refs j + y.payload.refs j)
    (hedges : (f x).payload.edges + (g y).payload.edges = x.payload.edges + y.payload.edges)
    (hbytes : (f x).chargedBytes + (g y).chargedBytes = x.chargedBytes + y.chargedBytes) :
    Counts own extra (s.modifyTwo h k f g) where
  balance j := by
    have hb := hc.balance j
    have hs := sum_modifyTwo (f := f) (g := g) hx hy hne (·.refs j)
    have hr := hrefs j
    have hstrong : (s.modifyTwo h k f g).strongAt j = s.strongAt j := by
      unfold strongAt
      rw [at?_modifyTwo hx hy hne]
      split_ifs with h1 h2
      · rw [h1, hy]
        exact hg
      · rw [h2, hx]
        exact hf
      · rfl
    rw [hstrong]
    change s.strongAt j = own j + refsIn s.work j + _
    omega
  alive j e he := by
    rw [at?_modifyTwo hx hy hne] at he
    split_ifs at he with h1 h2
    · rw [← Option.some.inj he, hg]
      exact hc.alive k y hy
    · rw [← Option.some.inj he, hf]
      exact hc.alive h x hx
    · exact hc.alive j e he
  edges := by
    have hs := sum_modifyTwo (f := f) (g := g) hx hy hne Payload.edges
    have := hc.edges
    change s.edges = (s.modifyTwo h k f g).sum Payload.edges + extra
    omega
  bytes := by
    have hy' : (s.modify h.slot f).at? k = some y := by
      rw [at?_modify_of_ne hx (Ne.symm hne)]
      exact hy
    have h1 := total_modify (fun _ e => e.chargedBytes) hx f
    have h2 := total_modify (fun _ e => e.chargedBytes) hy' g
    have := hc.bytes
    change s.bytes = ((s.modify h.slot f).modify k.slot g).total _
    omega
  bytes_le := hc.bytes_le
  live := by
    have hy' : (s.modify h.slot f).at? k = some y := by
      rw [at?_modify_of_ne hx (Ne.symm hne)]
      exact hy
    have h1 := total_modify (fun _ _ => 1) hx f
    have h2 := total_modify (fun _ _ => 1) hy' g
    have := hc.live
    change s.live = ((s.modify h.slot f).modify k.slot g).total _
    omega
  queued := hc.queued
  room := hc.room

end Pair

lemma sameTable_modifyTwo (s : Store) (h k : Handle) {f g : Entry → Entry}
    (hf : ∀ e, (f e).previous = e.previous ∧ (f e).next = e.next)
    (hg : ∀ e, (g e).previous = e.previous ∧ (g e).next = e.next) :
    SameTable s (s.modifyTwo h k f g) :=
  (sameTable_modify s h.slot hf).trans (sameTable_modify _ k.slot hg)

/-- What a rewrite must leave alone for the reader counts to stay right. -/
structure KeepsLeases (e e' : Entry) : Prop where
  readers : e'.readers = e.readers
  leases : ∀ k, e'.payload.leases k = e.payload.leases k
  holds : ∀ k, e'.payload.holds k = e.payload.holds k
  payload : e.readers = exclusiveReaders → e'.payload = e.payload

lemma Leases.rewrite (hl : Leases held s) (hh : s.at? h = some e) {f : Entry → Entry}
    (hf : KeepsLeases e (f e)) : Leases held (s.modify h.slot f) := by
  intro k x hx
  have h1 := sum_modify (·.leases k) hh f
  have h2 := sum_modify (·.holds k) hh f
  rw [hf.leases] at h1
  rw [hf.holds] at h2
  rw [Nat.add_right_cancel h1, Nat.add_right_cancel h2]
  rw [at?_modify hh] at hx
  split_ifs at hx with hk
  · subst hk
    obtain rfl := Option.some.inj hx
    rcases hl k e hh with ⟨a, b, c⟩ | ⟨a, b, c, d⟩
    · exact .inl ⟨a, hf.readers.trans b, c⟩
    · exact .inr ⟨a, b, hf.readers.trans c, (hf.payload c).trans d⟩
  · exact hl k x hx

/-- Rewriting one entry keeps the invariant, with the counters that go with it. -/
lemma Inv.rewrite {n b : Nat} (hi : Inv own held s) (hh : s.at? h = some e) (f : Entry → Entry)
    (hf : ∀ e, (f e).previous = e.previous ∧ (f e).next = e.next)
    (hown : ∀ k, own' k + (f e).payload.refs k + (if k = h then e.strong else 0) =
      own k + e.payload.refs k + (if k = h then (f e).strong else 0))
    (hstrong : 1 ≤ (f e).strong) (hleases : KeepsLeases e (f e))
    (hedges : n + e.payload.edges = s.edges + (f e).payload.edges)
    (hbytes : b + e.chargedBytes = s.bytes + (f e).chargedBytes) (hle : b ≤ s.limits.bytes)
    (hroom : n + s.work.length + 1 ≤ s.workCap) (hheld : ∀ d ∈ held, 1 ≤ own' d.handle) :
    Inv own' held { s.modify h.slot f with edges := n, bytes := b } where
  counts := hi.counts.rewrite hh f hown hstrong (by omega) hbytes hle hroom
  table := (hi.table.of_same (sameTable_modify s h.slot hf)).of_same
    { closed := rfl, limits := rfl, first := rfl, last := rfl, free := rfl
      freeCap := Nat.le_refl _, length := rfl, generation := fun _ => rfl
      links := fun _ => rfl }
  leases := hi.leases.rewrite hh hleases
  held_owned := hheld

/-- Leases and holds that pass between two entries nobody holds stay accounted for. -/
lemma Leases.pair {x y : Entry} {f g : Entry → Entry} (hl : Leases held s)
    (hx : s.at? h = some x) (hy : s.at? k = some y) (hne : h ≠ k)
    (hf : (f x).readers = x.readers) (hg : (g y).readers = y.readers)
    (hxr : x.readers ≠ exclusiveReaders) (hyr : y.readers ≠ exclusiveReaders)
    (hleases : ∀ j, (f x).payload.leases j + (g y).payload.leases j =
      x.payload.leases j + y.payload.leases j)
    (hholds : ∀ j, (f x).payload.holds j + (g y).payload.holds j =
      x.payload.holds j + y.payload.holds j) : Leases held (s.modifyTwo h k f g) := by
  intro j e he
  have h1 := sum_modifyTwo (f := f) (g := g) hx hy hne (·.leases j)
  have h2 := sum_modifyTwo (f := f) (g := g) hx hy hne (·.holds j)
  have h3 := hleases j
  have h4 := hholds j
  have hs : (s.modifyTwo h k f g).sum (·.leases j) = s.sum (·.leases j) := by omega
  have hs' : (s.modifyTwo h k f g).sum (·.holds j) = s.sum (·.holds j) := by omega
  rw [hs, hs']
  rw [at?_modifyTwo hx hy hne] at he
  split_ifs at he with c1 c2
  · subst c1
    obtain rfl := Option.some.inj he
    rcases hl _ _ hy with ⟨a, b, c⟩ | ⟨-, -, c, -⟩
    · exact .inl ⟨a, hg.trans b, c⟩
    · exact absurd c hyr
  · subst c2
    obtain rfl := Option.some.inj he
    rcases hl _ _ hx with ⟨a, b, c⟩ | ⟨-, -, c, -⟩
    · exact .inl ⟨a, hf.trans b, c⟩
    · exact absurd c hxr
  · exact hl _ _ he

/-! ## Reservations -/

/-- An allocation only uses up an answer of the allocator. -/
lemma alloc_spec (n : Nat) :
    wp (alloc n) (fun _ t => ∃ a, t = { s with allocator := a })
      (fun _ t => ∃ a, t = { s with allocator := a }) s := by
  unfold wp alloc
  split_ifs
  · exact ⟨_, rfl⟩
  · exact ⟨_, rfl⟩
  · exact ⟨_, rfl⟩
  · exact ⟨_, rfl⟩

lemma Reserved.spent (a : Nat → Bool) : Reserved s { s with allocator := a } :=
  ⟨rfl, Nat.le_refl _, Nat.le_refl _⟩

lemma grow_eq_none {cap len add : Nat} (hg : grow cap len add = none) : add ≤ cap - len := by
  unfold grow at hg
  split_ifs at hg with hle
  exact hle

lemma grow_eq_some {cap len add c : Nat} (hg : grow cap len add = some c) :
    cap ≤ c ∧ len + add ≤ c := by
  unfold grow at hg
  split_ifs at hg
  obtain rfl := Option.some.inj hg
  omega

/-- After a reservation the release list can take the new edges and the queued releases. -/
lemma reserveWork_spec (newEdges queued : Nat) :
    wp (reserveWork newEdges queued)
      (fun _ t => Reserved s t ∧ s.edges + newEdges + s.work.length + queued + 1 ≤ t.workCap)
      (fun _ t => Reserved s t) s := by
  unfold reserveWork
  rw [wp_get_bind]
  refine wp_ofExcept_bind (fun _ _ => .refl s) fun needed hn => ?_
  rw [okOr_eq_ok] at hn
  simp only [Option.bind_eq_some_iff] at hn
  obtain ⟨c, ⟨b, ⟨a, ha, hb⟩, hc⟩, hd⟩ := hn
  have := checkedAdd_eq_some ha
  have := checkedAdd_eq_some hb
  have := checkedAdd_eq_some hc
  have := checkedAdd_eq_some hd
  rcases hg : grow s.workCap s.work.length (needed - s.work.length) with _ | cap
  · have := grow_eq_none hg
    rw [wp_pure]
    exact ⟨.refl s, by omega⟩
  · have hcap := grow_eq_some hg
    refine wp_seq (alloc_spec _) (fun _ _ ⟨a, hr⟩ => hr ▸ .spent a) ?_
    rintro - _ ⟨a, rfl⟩
    rw [wp_update]
    refine ⟨⟨rfl, Nat.le_refl _, hcap.1⟩, ?_⟩
    change _ ≤ cap
    omega

/-! ## Retaining -/

/-- Raise every count by what `f` adds to its entry. -/
def bump (f : Handle → Nat) (s : Store) : Store :=
  { s with slots := s.slots.mapIdx fun i sl =>
      { sl with entry := sl.entry.map fun e => { e with strong := e.strong + f ⟨i, sl.generation⟩ } } }

variable {f : Handle → Nat}

lemma cell_bump (i : Nat) : (s.bump f).cell i =
    (s.cell i).map (fun p => (p.1, { p.2 with strong := p.2.strong + f p.1 })) := by
  unfold cell bump
  simp only [List.getElem?_mapIdx]
  rcases s.slots[i]? with _ | sl
  · rfl
  · rcases hs : sl.entry with _ | e <;> simp [hs]

lemma at?_bump (k : Handle) : (s.bump f).at? k =
    (s.at? k).map (fun e => { e with strong := e.strong + f k }) := by
  unfold at?
  rw [cell_bump]
  rcases s.cell k.slot with _ | p
  · rfl
  · by_cases hp : p.1 = k <;> simp [hp]

@[simp] lemma bump_length : (s.bump f).slots.length = s.slots.length := by
  simp [bump]

lemma total_bump {φ : Handle → Entry → Nat} (hφ : ∀ h e n, φ h { e with strong := n } = φ h e) :
    (s.bump f).total φ = s.total φ := by
  unfold total
  rw [bump_length]
  refine Finset.sum_congr rfl fun i _ => ?_
  rw [cell_bump]
  rcases s.cell i with _ | p
  · rfl
  · exact hφ _ _ _

lemma sum_bump (φ : Payload → Nat) : (s.bump f).sum φ = s.sum φ := total_bump fun _ _ _ => rfl

/-- Only live entries are raised. -/
def LiveAt (f : Handle → Nat) (s : Store) : Prop := ∀ k, f k ≠ 0 → (s.at? k).isSome = true

lemma strongAt_bump (hf : LiveAt f s) (k : Handle) :
    (s.bump f).strongAt k = s.strongAt k + f k := by
  unfold strongAt
  rw [at?_bump]
  rcases hk : s.at? k with _ | e
  · have h0 : f k = 0 := by
      by_contra hne
      have := hf k hne
      simp [hk] at this
    simp [h0]
  · rfl

lemma sameTable_bump (s : Store) (f : Handle → Nat) : SameTable s (s.bump f) where
  closed := rfl
  limits := rfl
  first := rfl
  last := rfl
  free := rfl
  freeCap := Nat.le_refl _
  length := bump_length
  generation i := by
    simp only [bump, List.getElem?_mapIdx]
    rcases s.slots[i]? <;> rfl
  links i := by
    rw [cell_bump]
    rcases s.cell i <;> rfl

/-- Retained references belong to the outside. -/
lemma Inv.bump (hi : Inv own held s) (hf : LiveAt f s) : Inv (own + f) held (s.bump f) where
  counts :=
    { balance := fun k => by
        have := hi.counts.balance k
        rw [strongAt_bump hf, sum_bump, Pi.add_apply]
        change s.strongAt k + f k = own k + f k + refsIn s.work k + _
        omega
      alive := fun k x hx => by
        rw [at?_bump, Option.map_eq_some_iff] at hx
        obtain ⟨e, he, rfl⟩ := hx
        exact (hi.counts.alive k e he).trans (Nat.le_add_right _ _)
      edges := by
        rw [sum_bump]
        exact hi.counts.edges
      bytes := by
        rw [total_bump fun _ _ _ => rfl]
        exact hi.counts.bytes
      bytes_le := hi.counts.bytes_le
      live := by
        rw [total_bump fun _ _ _ => rfl]
        exact hi.counts.live
      queued := hi.counts.queued
      room := hi.counts.room }
  table := hi.table.of_same (sameTable_bump s f)
  leases := by
    intro k x hx
    rw [at?_bump, Option.map_eq_some_iff] at hx
    obtain ⟨e, he, rfl⟩ := hx
    rw [sum_bump, sum_bump]
    exact hi.leases k e he
  held_owned := fun d hd => (hi.held_owned d hd).trans (Nat.le_add_right _ _)

lemma bump_zero (s : Store) : s.bump 0 = s := by
  have hs : (s.bump 0).slots = s.slots := by
    refine List.ext_getElem? fun i => ?_
    simp only [bump, List.getElem?_mapIdx]
    rcases s.slots[i]? with _ | ⟨g, _ | e⟩ <;> simp
  calc s.bump 0 = { s with slots := (s.bump 0).slots } := rfl
    _ = s := by rw [hs]

/-- One more reference to a live entry. -/
lemma modify_bump (hh : s.at? h = some e) :
    (s.bump f).modify h.slot (fun e => { e with strong := e.strong + 1 }) =
      s.bump (f + (Value.heap h).refs) := by
  have hc := at?_eq_some.1 hh
  simp only [modify, bump, Store.mk.injEq, true_and, and_true]
  refine List.ext_getElem? fun i => ?_
  rw [List.getElem?_modify, List.getElem?_mapIdx, List.getElem?_mapIdx]
  unfold cell at hc
  rcases hsl : s.slots[i]? with _ | ⟨g, _ | x⟩
  · rfl
  · by_cases hi : h.slot = i <;> simp [hi]
  · by_cases hi : h.slot = i
    · subst hi
      rw [hsl] at hc
      simp only [Option.bind_some, Option.map_some, Option.some.injEq, Prod.mk.injEq] at hc
      rw [← hc.1]
      simp [Nat.add_assoc]
    · have hne : h ≠ ⟨i, g⟩ := fun hh => hi (by rw [hh])
      simp [hi, Value.refs_of_ne hne]

/-- One reference to a live entry given back. -/
lemma modify_unbump (hh : s.at? h = some e) :
    (s.bump (f + (Value.heap h).refs)).modify h.slot (fun e => { e with strong := e.strong - 1 }) =
      s.bump f := by
  have hc := at?_eq_some.1 hh
  simp only [modify, bump, Store.mk.injEq, true_and, and_true]
  refine List.ext_getElem? fun i => ?_
  rw [List.getElem?_modify, List.getElem?_mapIdx, List.getElem?_mapIdx]
  unfold cell at hc
  rcases hsl : s.slots[i]? with _ | ⟨g, _ | x⟩
  · rfl
  · by_cases hi : h.slot = i <;> simp [hi]
  · by_cases hi : h.slot = i
    · subst hi
      rw [hsl] at hc
      simp only [Option.bind_some, Option.map_some, Option.some.injEq, Prod.mk.injEq] at hc
      rw [← hc.1]
      simp [← Nat.add_assoc]
    · have hne : h ≠ ⟨i, g⟩ := fun hh => hi (by rw [hh])
      simp [hi, Value.refs_of_ne hne]

lemma liveAt_refs {v : Value} (hv : ∀ h, v = .heap h → (s.at? h).isSome = true) :
    LiveAt v.refs s := by
  intro k hk
  unfold Value.refs at hk
  split_ifs at hk with hvk
  · exact hv k hvk
  · exact absurd rfl hk

/-- What a successful lookup of a value's handle says. -/
lemma refs_eq_zero_of_scalar {v : Value} (hv : v.isHeap = false) : v.refs = 0 :=
  funext fun h => Value.refs_of_not_heap hv h

/-- A retained value gains one reference; a refused one changes nothing. -/
lemma retain_spec (v : Value) (f : Handle → Nat) :
    wp (retain v) (fun _ t => t = s.bump (f + v.refs) ∧ ∀ h, v = .heap h → (s.at? h).isSome = true)
      (fun _ t => t = s.bump f) (s.bump f) := by
  cases v with
  | heap h =>
      refine wp_read_bind (fun _ _ => rfl) fun x hx => ?_
      rw [entry_eq_ok, at?_bump, Option.map_eq_some_iff] at hx
      obtain ⟨-, e, he, rfl⟩ := hx
      split_ifs
      · rw [wp_update]
        refine ⟨modify_bump he, ?_⟩
        rintro k ⟨⟩
        rw [he]
        rfl
      · exact rfl
  | _ =>
      refine ⟨?_, fun h hv => by cases hv⟩
      rw [refs_eq_zero_of_scalar rfl, add_zero]

/-- Giving retained children back restores the counts. -/
lemma undoAdmissionEdges_spec {vs : List Value}
    (hv : ∀ h, Value.heap h ∈ vs → (s.at? h).isSome = true) (f : Handle → Nat) :
    wp (undoAdmissionEdges vs) (fun _ t => t = s.bump f) (fun _ _ => False)
      (s.bump (f + refsIn vs)) := by
  induction vs with
  | nil =>
      change s.bump (f + 0) = s.bump f
      rw [add_zero]
  | cons v vs ih =>
      have ih := ih fun h hm => hv h (List.mem_cons_of_mem _ hm)
      cases v with
      | heap h =>
          obtain ⟨e, he⟩ := Option.isSome_iff_exists.1 (hv h List.mem_cons_self)
          unfold undoAdmissionEdges
          rw [wp_update_bind]
          have hadd : f + refsIn (Value.heap h :: vs) = (f + refsIn vs) + (Value.heap h).refs := by
            funext k
            simp only [Pi.add_apply, refsIn_cons]
            omega
          rw [hadd, modify_unbump he]
          exact ih
      | _ =>
          have hadd : ∀ v : Value, v.isHeap = false → refsIn (v :: vs) = refsIn vs := by
            intro v hs
            funext k
            rw [refsIn_cons, Value.refs_of_not_heap hs, Nat.zero_add]
          rw [hadd _ rfl]
          exact ih

/-- Retaining the children of a payload is all or nothing. -/
lemma retainChildren_spec {done vs : List Value}
    (hd : ∀ h, Value.heap h ∈ done → (s.at? h).isSome = true) :
    wp (retainChildren done vs)
      (fun _ t => t = s.bump (refsIn (done ++ vs)) ∧
        ∀ h, Value.heap h ∈ vs → (s.at? h).isSome = true)
      (fun _ t => t = s) (s.bump (refsIn done)) := by
  induction vs generalizing done with
  | nil => exact ⟨by rw [List.append_nil], by simp⟩
  | cons v vs ih =>
      unfold retainChildren
      rw [wp_bind, wp_attempt]
      refine wp_mono (retain_spec v (refsIn done)) ?_ ?_
      · rintro - t ⟨rfl, hv⟩
        have hd' : ∀ h, Value.heap h ∈ done ++ [v] → (s.at? h).isSome = true := by
          intro h hm
          rcases List.mem_append.1 hm with hm | hm
          · exact hd h hm
          · exact hv h (List.mem_singleton.1 hm).symm
        have hadd : refsIn done + v.refs = refsIn (done ++ [v]) := by
          funext k
          simp
        rw [hadd]
        refine wp_mono (ih hd') ?_ fun _ _ h => h
        rintro - t ⟨rfl, hvs⟩
        refine ⟨by rw [List.append_assoc]; rfl, fun h hm => ?_⟩
        rcases List.mem_cons.1 hm with hm | hm
        · exact hv h hm.symm
        · exact hvs h hm
      · rintro e t rfl
        have hz : refsIn done = 0 + refsIn done := (zero_add _).symm
        refine wp_seq (Q := fun _ t => t = s) ?_ (fun _ _ (h : False) => h.elim) ?_
        · rw [hz]
          refine wp_mono (undoAdmissionEdges_spec hd 0) ?_ fun _ _ h => h
          rintro - t rfl
          exact bump_zero s
        · rintro - t rfl
          exact rfl

end Store

end Rnx
