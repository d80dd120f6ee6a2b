import Rnx.Store.Retire

/-!
# Cleanup cannot fail

One release either lowers a count or retires an entry and queues what its payload owned.  Under
the invariant no check of either can fail: the entry is live because a reference to it exists,
nobody leases an entry whose only reference is the one being given up, and the release list has
room because it has room for every live edge.  Each release uses up one reference, so the drain
ends with an empty list.
-/

namespace Rnx

open ErrState

namespace Payload

/-- A payload as it is when its children are queued: an active guard has given its elements back
first. -/
def detach : Payload → Payload
  | sortGuard st => if st.active then sortGuard { st with values := .empty, active := false }
      else sortGuard st
  | p => p

/-- The vector an active guard gives its elements back to. -/
def restores : Payload → Option (Handle × Buf Value)
  | sortGuard st => if st.active then some (st.parent, st.values) else none
  | _ => none

lemma detach_of_not_exclusive {p : Payload} (hp : p.exclusive = none) : p.detach = p := by
  cases p with
  | sortGuard st =>
      simp only [exclusive] at hp
      split_ifs at hp with ha
      simp [detach, ha]
  | _ => rfl

lemma restores_of_not_exclusive {p : Payload} (hp : p.exclusive = none) : p.restores = none := by
  cases p with
  | sortGuard st =>
      simp only [exclusive] at hp
      split_ifs at hp with ha
      simp [restores, ha]
  | _ => rfl

lemma exclusive_eq_some {p : Payload} {h : Handle} (hp : p.exclusive = some h) :
    ∃ st, p = sortGuard st ∧ st.active = true ∧ st.parent = h := by
  cases p with
  | sortGuard st =>
      simp only [exclusive] at hp
      split_ifs at hp with ha
      exact ⟨st, rfl, ha, Option.some.inj hp⟩
  | _ => cases hp

lemma lease_exclusive (p : Payload) : p.lease = none ∨ p.exclusive = none := by
  cases p with
  | sortGuard st => exact .inl rfl
  | _ => exact .inr rfl

lemma mem_children_of_lease {p : Payload} {h : Handle} (hp : p.lease = some h) :
    Value.heap h ∈ p.children := by
  cases p with
  | vectorIterator iter =>
      simp only [lease, Option.some.injEq] at hp
      simp [children, hp]
  | otherRangeIterator st =>
      obtain ⟨source, kind⟩ := st
      cases kind <;> simp_all [lease, children]
  | _ => simp [lease] at hp

end Payload

/-- Queueing keeps the references of the queued values. -/
lemma refsIn_queued (vs : List Value) (h : Handle) :
    refsIn (vs.filter Value.isHeap).reverse h = refsIn vs h := by
  rw [refsIn_perm (List.reverse_perm _)]
  induction vs with
  | nil => rfl
  | cons v vs ih =>
      by_cases hv : v.isHeap = true
      · rw [List.filter_cons_of_pos hv, refsIn_cons, refsIn_cons, ih]
      · rw [List.filter_cons_of_neg hv, refsIn_cons, ih,
          Value.refs_of_not_heap (by simpa using hv), Nat.zero_add]

lemma length_queued (vs : List Value) :
    (vs.filter Value.isHeap).reverse.length = edgesIn vs := by
  rw [List.length_reverse]
  induction vs with
  | nil => rfl
  | cons v vs ih =>
      by_cases hv : v.isHeap = true
      · rw [List.filter_cons_of_pos hv, List.length_cons, edgesIn_cons, ih]
        unfold Value.heapEdge
        rw [if_pos hv]
        omega
      · rw [List.filter_cons_of_neg hv, edgesIn_cons, ih,
          Value.heapEdge_of_not_heap (by simpa using hv), Nat.zero_add]

namespace Store

variable {s t u : Store} {h k : Handle} {e : Entry} {own : Handle → Nat} {held : Option Hold}
  {extra : Nat}

/-! ## Queueing the children of a detached payload -/

/-- References that lie outside the store move to the release list. -/
lemma Counts.queue {vs : List Value} (hc : Counts (own + refsIn vs) (extra + edgesIn vs) s) :
    Counts own extra
      { s with
        edges := s.edges - edgesIn vs
        work := (vs.filter Value.isHeap).reverse ++ s.work } where
  balance k := by
    have := hc.balance k
    rw [Pi.add_apply] at this
    change s.strongAt k = own k + refsIn ((vs.filter Value.isHeap).reverse ++ s.work) k +
      s.sum (·.refs k)
    rw [refsIn_append, refsIn_queued]
    omega
  alive := hc.alive
  edges := by
    have := hc.edges
    change s.edges - edgesIn vs = s.sum Payload.edges + extra
    omega
  bytes := hc.bytes
  bytes_le := hc.bytes_le
  live := hc.live
  queued := by
    intro v hv
    rcases List.mem_append.1 hv with hv | hv
    · exact (List.mem_filter.1 (List.mem_reverse.1 hv)).2
    · exact hc.queued v hv
  room := by
    have h1 := hc.room
    have h2 := hc.edges
    change s.edges - edgesIn vs + ((vs.filter Value.isHeap).reverse ++ s.work).length + 1 ≤ s.workCap
    rw [List.length_append, length_queued]
    omega

/-- Reader counts that still include the leases and holds of a detached payload. -/
def LeasesWith (p : Payload) (held : Option Hold) (s : Store) : Prop :=
  ∀ k x, s.at? k = some x →
    LeaseOk x (s.sum (·.leases k) + p.leases k) (s.sum (·.holds k) + heldAt held k + p.holds k)

/-- What giving up the leases and holds of a payload does to an entry. -/
def settle (p : Payload) (k : Handle) (x : Entry) : Entry :=
  { x with
    readers := if p.exclusive = some k then 0 else x.readers - p.leases k
    payload := match p.restores with
      | some (h, values) => if h = k then .list .vec values else x.payload
      | none => x.payload }

/-- A reference outside the store keeps its entry alive. -/
lemma Counts.live_of_own (hc : Counts own extra s) (hk : 1 ≤ own k) :
    ∃ x, s.at? k = some x := by
  have := hc.balance k
  unfold strongAt at this
  rcases hx : s.at? k with _ | x
  · rw [hx] at this
    simp only [Option.elim_none] at this
    omega
  · exact ⟨x, rfl⟩

/-- Every reference, queued or in a payload, is to a live entry. -/
lemma Counts.live_of_refs (hc : Counts own extra s) (hk : 1 ≤ s.sum (·.refs k)) :
    ∃ x, s.at? k = some x := by
  have := hc.balance k
  unfold strongAt at this
  rcases hx : s.at? k with _ | x
  · rw [hx] at this
    simp only [Option.elim_none] at this
    omega
  · exact ⟨x, rfl⟩

/-- An entry with a reader loses one. -/
lemma endLease_spec (hopen : s.closed = false) (hk : s.at? k = some e) (hr : 1 ≤ e.readers) :
    wp (endLease k)
      (fun _ t => t = s.modify k.slot fun e => { e with readers := e.readers - 1 })
      (fun _ _ => False) s := by
  refine wp_read_bind (fun x hx => ?_) fun x hx => ?_
  · rw [entry_eq_ok.2 ⟨hopen, hk⟩] at hx
    cases hx
  · obtain ⟨-, hx⟩ := entry_eq_ok.1 hx
    obtain rfl := Option.some.inj (hk.symm.trans hx)
    exact wp_guardWith_bind (fun hn => hn hr) fun _ => rfl

/-- The states between which a payload gives its leases and holds up. -/
structure Settled (p : Payload) (s t : Store) : Prop where
  lookup : ∀ k, t.at? k = (s.at? k).map (settle p k)
  sums : ∀ φ : Payload → Nat, match p.restores with
    | none => t.sum φ = s.sum φ
    | some (_, values) => t.sum φ + φ (.moved .vec) = s.sum φ + φ (.list .vec values)
  same : SameTable s t
  fields : t.bytes = s.bytes ∧ t.edges = s.edges ∧ t.work = s.work ∧ t.workCap = s.workCap ∧
    t.live = s.live
  strong : t.total (fun _ x => x.strong) = s.total (fun _ x => x.strong)
  charged : t.total (fun _ x => x.chargedBytes) = s.total (fun _ x => x.chargedBytes)
  ones : t.total (fun _ _ => 1) = s.total (fun _ _ => 1)

lemma settle_none {p : Payload} (hl : p.lease = none) (hx : p.exclusive = none) (k : Handle)
    (x : Entry) : settle p k x = x := by
  simp [settle, hx, Payload.restores_of_not_exclusive hx, Payload.leases, hl]

/-- A payload without leases or holds has nothing to give up. -/
lemma settled_none {p : Payload} (hl : p.lease = none) (hx : p.exclusive = none) :
    Settled p s s where
  lookup k := by
    rcases s.at? k with _ | x
    · rfl
    · simp [settle_none hl hx]
  sums φ := by
    rw [Payload.restores_of_not_exclusive hx]
  same := Reserved.sameTable (.refl s)
  fields := ⟨rfl, rfl, rfl, rfl, rfl⟩
  strong := rfl
  charged := rfl
  ones := rfl

/-- A shared lease given up lowers one reader count. -/
lemma settled_lease {p : Payload} (hl : p.lease = some h) (hh : s.at? h = some e) :
    Settled p s (s.modify h.slot fun e => { e with readers := e.readers - 1 }) where
  lookup k := by
    have hx : p.exclusive = none := p.lease_exclusive.resolve_left (by rw [hl]; simp)
    rw [at?_modify hh]
    split_ifs with hk
    · subst hk
      rw [hh]
      simp [settle, hx, Payload.restores_of_not_exclusive hx, Payload.leases, hl]
    · have hk' : h ≠ k := fun hh => hk hh.symm
      rcases s.at? k with _ | x
      · rfl
      · simp [settle, hx, Payload.restores_of_not_exclusive hx, Payload.leases, hl, hk']
  sums φ := by
    have hx : p.exclusive = none := p.lease_exclusive.resolve_left (by rw [hl]; simp)
    rw [Payload.restores_of_not_exclusive hx]
    exact Nat.add_right_cancel (sum_modify φ hh _)
  same := sameTable_modify s _ fun _ => ⟨rfl, rfl⟩
  fields := ⟨rfl, rfl, rfl, rfl, rfl⟩
  strong := Nat.add_right_cancel (total_modify (fun _ x => x.strong) hh _)
  charged := Nat.add_right_cancel (total_modify (fun _ x => x.chargedBytes) hh _)
  ones := Nat.add_right_cancel (total_modify (fun _ _ => 1) hh _)

/-- An active guard given up restores the vector it held. -/
lemma settled_guard {st : SortState} (ha : st.active = true) (hh : s.at? st.parent = some e)
    (hp : e.payload = .moved .vec) :
    Settled (.sortGuard st) s (s.modify st.parent.slot fun e =>
      { e with payload := .list .vec st.values, readers := 0 }) where
  lookup k := by
    rw [at?_modify hh]
    split_ifs with hk
    · subst hk
      rw [hh]
      simp [settle, Payload.exclusive, Payload.restores, ha]
    · have hk' : st.parent ≠ k := fun hh => hk hh.symm
      rcases s.at? k with _ | x
      · rfl
      · simp [settle, Payload.exclusive, Payload.restores, ha, hk', Payload.leases, Payload.lease]
  sums φ := by
    simp only [Payload.restores, ha, if_true]
    have := sum_modify φ hh (fun e => { e with payload := .list .vec st.values, readers := 0 })
    rw [hp] at this
    exact this
  same := sameTable_modify s _ fun _ => ⟨rfl, rfl⟩
  fields := ⟨rfl, rfl, rfl, rfl, rfl⟩
  strong := Nat.add_right_cancel (total_modify (fun _ x => x.strong) hh _)
  charged := Nat.add_right_cancel (total_modify (fun _ x => x.chargedBytes) hh _)
  ones := Nat.add_right_cancel (total_modify (fun _ _ => 1) hh _)

/-- The elements an active guard gives back are the references it need not release. -/
lemma refs_detach (p : Payload) (k : Handle) :
    match p.restores with
    | none => p.detach.refs k = p.refs k
    | some (_, values) => p.detach.refs k + (Payload.list .vec values).refs k = p.refs k := by
  cases p with
  | sortGuard st =>
      cases ha : st.active <;>
        simp [Payload.restores, Payload.detach, Payload.refs, Payload.children, ha, Buf.empty]
  | _ => rfl

lemma edges_detach (p : Payload) :
    match p.restores with
    | none => p.detach.edges = p.edges
    | some (_, values) => p.detach.edges + (Payload.list .vec values).edges = p.edges := by
  cases p with
  | sortGuard st =>
      cases ha : st.active <;>
        simp [Payload.restores, Payload.detach, Payload.edges, Payload.children, ha, Buf.empty]
  | _ => rfl

/-- After its leases and holds are given up, what remains of a payload is its children. -/
lemma Counts.settled {p : Payload} (hc : Counts (own + p.refs) (extra + p.edges) s)
    (hs : Settled p s t) : Counts (own + p.detach.refs) (extra + p.detach.edges) t where
  balance k := by
    have hb := hc.balance k
    have hsum := hs.sums (·.refs k)
    have hstrong : t.strongAt k = s.strongAt k := by
      unfold strongAt
      rw [hs.lookup]
      rcases s.at? k <;> rfl
    have hd := refs_detach p k
    rw [hstrong, hs.fields.2.2.1]
    simp only [Pi.add_apply] at hb ⊢
    rcases hr : p.restores with _ | ⟨c, values⟩
    · simp only [hr] at hsum hd
      omega
    · simp only [hr] at hsum hd
      have h0 : (Payload.moved Ty.vec).refs k = 0 := rfl
      omega
  alive k x hx := by
    rw [hs.lookup, Option.map_eq_some_iff] at hx
    obtain ⟨y, hy, rfl⟩ := hx
    exact hc.alive k y hy
  edges := by
    have he := hc.edges
    have hsum := hs.sums Payload.edges
    have hd := edges_detach p
    rw [hs.fields.2.1]
    rcases hr : p.restores with _ | ⟨c, values⟩
    · simp only [hr] at hsum hd
      omega
    · simp only [hr] at hsum hd
      have h0 : (Payload.moved Ty.vec).edges = 0 := rfl
      omega
  bytes := by
    rw [hs.fields.1, hs.charged]
    exact hc.bytes
  bytes_le := by
    rw [hs.fields.1, hs.same.limits]
    exact hc.bytes_le
  live := by
    rw [hs.fields.2.2.2.2, hs.ones]
    exact hc.live
  queued := hs.fields.2.2.1 ▸ hc.queued
  room := by
    rw [hs.fields.2.1, hs.fields.2.2.1, hs.fields.2.2.2.1]
    exact hc.room

/-- Giving leases and holds up makes the reader counts right again. -/
lemma Leases.settled {p : Payload} (hl : LeasesWith p held s) (hs : Settled p s t) :
    Leases held t := by
  intro k x hx
  rw [hs.lookup, Option.map_eq_some_iff] at hx
  obtain ⟨y, hy, rfl⟩ := hx
  have hsum : t.sum (·.leases k) = s.sum (·.leases k) ∧ t.sum (·.holds k) = s.sum (·.holds k) := by
    have h1 := hs.sums (·.leases k)
    have h2 := hs.sums (·.holds k)
    rcases hr : p.restores with _ | ⟨c, values⟩
    · simp only [hr] at h1 h2
      exact ⟨h1, h2⟩
    · simp only [hr] at h1 h2
      exact ⟨Nat.add_right_cancel h1, Nat.add_right_cancel h2⟩
  rw [hsum.1, hsum.2]
  have hok := hl k y hy
  by_cases hx : p.exclusive = some k
  · have h1 : p.holds k = 1 := if_pos hx
    rcases hok with ⟨a, b, c⟩ | ⟨a, b, c, d⟩
    · omega
    · refine .inl ⟨by omega, ?_, ?_⟩
      · simp only [settle, hx, if_true]
        omega
      · have : exclusiveReaders = 2 ^ 32 - 1 := rfl
        omega
  · have h0 : p.holds k = 0 := if_neg hx
    have hpay : (settle p k y).payload = y.payload := by
      unfold settle
      cases p with
      | sortGuard st =>
          simp only [Payload.exclusive] at hx
          simp only [Payload.restores]
          split_ifs at hx ⊢ with ha
          · have : st.parent ≠ k := fun hh => hx (by rw [hh])
            simp [this]
          · rfl
      | _ => rfl
    have hread : (settle p k y).readers = y.readers - p.leases k := by
      simp [settle, hx]
    rcases hok with ⟨a, b, c⟩ | ⟨a, b, c, d⟩
    · exact .inl ⟨by omega, by omega, by omega⟩
    · exact .inr ⟨by omega, by omega, by omega, hpay.trans d⟩

/-! ## Queueing -/

lemma prepareBoxedDetach_spec {p : Payload} (hc : Counts (own + p.refs) extra s) (ht : Table s)
    (hl : LeasesWith p held s) :
    wp (prepareBoxedDetach p)
      (fun r t => r = (p.detach, none) ∧
        ((∀ iter, p ≠ .vectorIterator iter) ∧ Settled p s t ∨
          t = s ∧ ∃ iter, p = .vectorIterator iter)) (fun _ _ => False) s := by
  have hlive : ∀ k, 1 ≤ p.refs k → ∃ x, s.at? k = some x := fun k hk =>
    hc.live_of_own (by rw [Pi.add_apply]; omega)
  cases p with
  | sortGuard st =>
      unfold prepareBoxedDetach
      by_cases ha : st.active = true
      · obtain ⟨e, he⟩ := hlive st.parent (by simp [Payload.refs, Payload.children])
        have hholds : (Payload.sortGuard st).holds st.parent = 1 := by
          simp [Payload.holds, Payload.exclusive, ha]
        have hx : e.readers = exclusiveReaders ∧ e.payload = .moved .vec := by
          rcases hl _ _ he with ⟨a, b, c⟩ | ⟨a, b, c, d⟩
          · omega
          · exact ⟨c, d⟩
        simp only [ha, if_true]
        refine wp_seq (m := sortRestore st) (Q := fun r t =>
          r = { st with values := .empty, active := false } ∧ Settled (.sortGuard st) s t)
          ?_ (fun _ _ (h : False) => h) ?_
        · refine wp_read_bind (fun y hy => ?_) fun y hy => ?_
          · rw [entry_eq_ok.2 ⟨ht.isOpen, he⟩] at hy
            cases hy
          · obtain ⟨-, hy⟩ := entry_eq_ok.1 hy
            obtain rfl := Option.some.inj (he.symm.trans hy)
            refine wp_guardWith_bind (fun hn => hn hx) fun _ => ?_
            rw [wp_update_bind, wp_pure]
            exact ⟨rfl, settled_guard ha he hx.2⟩
        · rintro - t ⟨rfl, hs⟩
          rw [wp_pure]
          refine ⟨?_, .inl ⟨by simp, hs⟩⟩
          simp [Payload.detach, ha]
      · have hx : (Payload.sortGuard st).exclusive = none := by simp [Payload.exclusive, ha]
        simp only [ha, Bool.false_eq_true, if_false, wp_pure]
        exact ⟨by rw [Payload.detach_of_not_exclusive hx], .inl ⟨by simp, settled_none rfl hx⟩⟩
  | otherRangeIterator st =>
      unfold prepareBoxedDetach
      rcases hle : (Payload.otherRangeIterator st).lease with _ | h
      · exact ⟨rfl, .inl ⟨by simp, settled_none hle rfl⟩⟩
      · have href := refsIn_pos_of_mem (Payload.mem_children_of_lease hle)
        obtain ⟨e, he⟩ := hlive h href
        have hone : (Payload.otherRangeIterator st).leases h = 1 := if_pos hle
        have hr : 1 ≤ e.readers := by
          rcases hl _ _ he with ⟨a, b, c⟩ | ⟨a, b, c, d⟩ <;> omega
        change wp (attempt (endLease h) >>= _) _ _ _
        rw [wp_bind, wp_attempt]
        refine wp_mono (endLease_spec ht.isOpen he hr) ?_ fun _ _ h => h.elim
        rintro - t rfl
        exact ⟨rfl, .inl ⟨by simp, settled_lease hle he⟩⟩
  | vectorIterator iter => exact ⟨rfl, .inr ⟨rfl, iter, rfl⟩⟩
  | _ => exact ⟨rfl, .inl ⟨by simp, settled_none rfl rfl⟩⟩

/-- What queueing the children of a payload leaves behind. -/
structure Enqueued (p : Payload) (s t : Store) : Prop where
  lookup : ∀ k, t.at? k = (s.at? k).map (settle p k)
  sums : ∀ φ : Payload → Nat, match p.restores with
    | none => t.sum φ = s.sum φ
    | some (_, values) => t.sum φ + φ (.moved .vec) = s.sum φ + φ (.list .vec values)
  work : t.work = (p.detach.children.filter Value.isHeap).reverse ++ s.work
  same : SameTable s t
  strong : t.total (fun _ x => x.strong) = s.total (fun _ x => x.strong)

/-- A payload's children counted off and queued. -/
def withQueued (p : Payload) (s : Store) : Store :=
  { s with
    edges := s.edges - p.edges
    work := (p.children.filter Value.isHeap).reverse ++ s.work }

lemma sameTable_withQueued (p : Payload) (s : Store) : SameTable s (s.withQueued p) :=
  ⟨rfl, rfl, rfl, rfl, rfl, Nat.le_refl _, rfl, fun _ => rfl, fun _ => rfl⟩

/-- Settling and queueing together. -/
lemma settled_queue {p : Payload} (hc : Counts (own + p.refs) (extra + p.edges) s) (ht : Table s)
    (hl : LeasesWith p held s) (hs : Settled p s u) :
    Counts own extra (u.withQueued p.detach) ∧ Table (u.withQueued p.detach) ∧
      Leases held (u.withQueued p.detach) ∧ Enqueued p s (u.withQueued p.detach) := by
  have hleases : Leases held u := Leases.settled hl hs
  refine ⟨(hc.settled hs).queue, (ht.of_same hs.same).of_same (sameTable_withQueued _ _),
    hleases, ?_⟩
  exact
    { lookup := hs.lookup
      sums := hs.sums
      work := by
        rw [← hs.fields.2.2.1]
        rfl
      same := hs.same.trans (sameTable_withQueued _ _)
      strong := hs.strong }

lemma detachVectorLease_other {p : Payload} (hp : ∀ iter, p ≠ .vectorIterator iter) :
    detachVectorLease p.detach none = pure none := by
  cases p with
  | vectorIterator iter => exact absurd rfl (hp iter)
  | sortGuard st => cases ha : st.active <;> simp [Payload.detach, ha, detachVectorLease]
  | _ => rfl

/-- A vector iterator ends its lease while its edge is counted off. -/
lemma detachVectorLease_vector {iter : Iter}
    (hc : Counts (own + (Payload.vectorIterator iter).refs) extra s) (ht : Table s)
    (hl : LeasesWith (.vectorIterator iter) held s) (n : Nat) :
    wp (detachVectorLease (.vectorIterator iter) none)
      (fun r t => r = none ∧ ∃ u, Settled (.vectorIterator iter) s u ∧ t = { u with edges := n })
      (fun _ _ => False) { s with edges := n } := by
  obtain ⟨e, he⟩ := hc.live_of_own (k := iter.handle) (by
    simp [Payload.refs, Payload.children])
  have hone : (Payload.vectorIterator iter).leases iter.handle = 1 := if_pos rfl
  have hr : 1 ≤ e.readers := by
    rcases hl _ _ he with ⟨a, b, c⟩ | ⟨a, b, c, d⟩ <;> omega
  unfold detachVectorLease
  simp only
  rw [wp_bind, wp_attempt]
  refine wp_mono (endLease_spec (s := { s with edges := n }) ht.isOpen he hr) ?_
    fun _ _ h => h.elim
  rintro - t rfl
  exact ⟨rfl, _, settled_lease rfl he, rfl⟩

/-- Under the invariant the children of a detached payload are queued without a failure. -/
lemma enqueueChildren_spec {p : Payload} (hc : Counts (own + p.refs) (extra + p.edges) s)
    (ht : Table s) (hl : LeasesWith p held s) :
    wp (enqueueChildren p)
      (fun _ t => Counts own extra t ∧ Table t ∧ Leases held t ∧ Enqueued p s t)
      (fun _ _ => False) s := by
  unfold enqueueChildren
  refine wp_seq (prepareBoxedDetach_spec hc ht hl) (fun _ _ h => h) ?_
  rintro - u ⟨rfl, hcase⟩
  simp only
  rw [wp_get_bind]
  have hedges : p.detach.edges ≤ u.edges := by
    rcases hcase with ⟨-, hs⟩ | ⟨rfl, iter, rfl⟩
    · have := (hc.settled hs).edges
      omega
    · have := hc.edges
      change (Payload.vectorIterator iter).edges ≤ _
      omega
  refine wp_ofExcept_bind (fun e' he' => ?_) fun n hn => ?_
  · rw [checkedSub_of_le hedges] at he'
    cases he'
  rw [checkedSub_of_le hedges] at hn
  obtain rfl : u.edges - p.detach.edges = n := by simpa [okOr] using hn
  unfold setEdges
  rw [wp_update_bind]
  rcases hcase with ⟨hv, hs⟩ | ⟨rfl, iter, rfl⟩
  · rw [detachVectorLease_other hv]
    change wp (queue p.detach.children >>= fun _ => pure ()) _ _ _
    unfold queue
    rw [wp_update_bind, wp_pure]
    exact settled_queue hc ht hl hs
  · refine wp_seq (detachVectorLease_vector hc ht hl _) (fun _ _ h => h) ?_
    rintro - t ⟨rfl, w, hw, rfl⟩
    unfold queue
    rw [wp_update_bind, wp_pure]
    have := settled_queue hc ht hl hw
    rw [← hw.fields.2.1]
    exact this

/-! ## One release -/

/-- What the retirement of `h` leaves of another entry. -/
def survivor (e : Entry) (k : Handle) (x : Entry) : Entry :=
  settle e.payload k (relinked e k.slot x)

/-- The two ways a release of `h` goes. -/
inductive ReleaseStep (h : Handle) (s t : Store) : Prop
  | lowered (e : Entry) (lookup : s.at? h = some e) (shared : 2 ≤ e.strong)
      (eq : t = s.modify h.slot fun e => { e with strong := e.strong - 1 })
  | freed (e : Entry) (lookup : s.at? h = some e) (last : e.strong = 1) (gone : t.at? h = none)
      (others : ∀ k, k ≠ h → t.at? k = (s.at? k).map (survivor e k))
      (sums : ∀ φ : Payload → Nat, match e.payload.restores with
        | none => t.sum φ + φ e.payload = s.sum φ
        | some (_, values) =>
            t.sum φ + φ e.payload + φ (.moved .vec) = s.sum φ + φ (.list .vec values))
      (work : t.work = (e.payload.detach.children.filter Value.isHeap).reverse ++ s.work)
      (length : t.slots.length = s.slots.length) (limits : t.limits = s.limits)
      (order : ∀ o, Linked s.prevOf s.nextOf s.first s.last o → (∀ i, i ∈ o ↔ (s.cell i).isSome) →
        Linked t.prevOf t.nextOf t.first t.last (o.erase h.slot) ∧
          ∀ i, i ∈ o.erase h.slot ↔ (t.cell i).isSome)
      (free : ∀ i ∈ t.free, i ∈ s.free ∨ i = h.slot)

lemma Counts.retire (hc : Counts (own + (Value.heap h).refs) extra s) (hh : s.at? h = some e)
    (h1 : e.strong = 1) :
    Counts (own + e.payload.refs) (extra + e.payload.edges)
      { s.retire h e with bytes := s.bytes - e.chargedBytes, live := s.live - 1 } := by
  obtain ⟨-, hli, hwo, hed, hwc, -, -, -⟩ := retire_frame s h e
  refine
    { balance := fun k => ?_, alive := fun k x hx => ?_, edges := ?_, bytes := ?_, bytes_le := ?_
      live := ?_, queued := ?_, room := ?_ }
  · have hsum := sum_retire hh (·.refs k)
    have hb := hc.balance k
    change (s.retire h e).strongAt k = own k + e.payload.refs k + refsIn (s.retire h e).work k +
      (s.retire h e).sum (·.refs k)
    rw [hwo]
    simp only [Pi.add_apply] at hb
    by_cases hk : k = h
    · subst hk
      rw [strongAt_of_at? hh, Value.refs_self] at hb
      unfold strongAt
      rw [at?_retire_self hh]
      change 0 = _
      omega
    · have hstrong : (s.retire h e).strongAt k = s.strongAt k := by
        unfold strongAt
        rw [at?_retire_of_ne hh hk]
        rcases s.at? k <;> rfl
      rw [Value.refs_of_ne (Ne.symm hk)] at hb
      omega
  · change (s.retire h e).at? k = some x at hx
    have hk : k ≠ h := by
      rintro rfl
      rw [at?_retire_self hh] at hx
      cases hx
    rw [at?_retire_of_ne hh hk, Option.map_eq_some_iff] at hx
    obtain ⟨y, hy, rfl⟩ := hx
    exact hc.alive k y hy
  · have hsum := sum_retire hh Payload.edges
    have := hc.edges
    change (s.retire h e).edges = (s.retire h e).sum Payload.edges + _
    omega
  · have hsum := total_retire hh (φ := fun _ e => e.chargedBytes) fun _ _ _ => rfl
    have := hc.bytes
    change s.bytes - e.chargedBytes = (s.retire h e).total (fun _ e => e.chargedBytes)
    omega
  · have := hc.bytes_le
    change s.bytes - e.chargedBytes ≤ (s.retire h e).limits.bytes
    rw [hli]
    omega
  · have hsum := total_retire hh (φ := fun _ _ => 1) fun _ _ _ => rfl
    have := hc.live
    change s.live - 1 = (s.retire h e).total (fun _ _ => 1)
    omega
  · change ∀ v ∈ (s.retire h e).work, _
    rw [hwo]
    exact hc.queued
  · change (s.retire h e).edges + (s.retire h e).work.length + 1 ≤ (s.retire h e).workCap
    rw [hed, hwo, hwc]
    exact hc.room

lemma Leases.retire (hl : Leases held s) (hh : s.at? h = some e) :
    LeasesWith e.payload held (s.retire h e) := by
  intro k x hx
  have hk : k ≠ h := by
    rintro rfl
    rw [at?_retire_self hh] at hx
    cases hx
  rw [at?_retire_of_ne hh hk, Option.map_eq_some_iff] at hx
  obtain ⟨y, hy, rfl⟩ := hx
  have h1 := sum_retire hh (·.leases k)
  have h2 := sum_retire hh (·.holds k)
  have e2 : (s.retire h e).sum (·.holds k) + heldAt held k + e.payload.holds k =
      s.sum (·.holds k) + heldAt held k := by omega
  rw [h1, e2]
  exact hl k y hy

/-- Nobody leases or holds an entry whose only reference is the one being given up. -/
lemma Inv.readers_eq_zero (hi : Inv (own + (Value.heap h).refs) held s)
    (hheld : ∀ d ∈ held, 1 ≤ own d.handle) (hh : s.at? h = some e) (h1 : e.strong = 1) :
    e.readers = 0 := by
  have hb := hi.counts.balance h
  rw [strongAt_of_at? hh, Pi.add_apply, Value.refs_self] at hb
  have hle : s.sum (·.leases h) + s.sum (·.holds h) ≤ s.sum (·.refs h) := by
    unfold sum
    rw [← total_add]
    exact total_le_total fun _ x _ => x.payload.leases_add_holds_le_refs h
  have hheld0 : heldAt held h = 0 := by
    unfold heldAt
    refine if_neg fun hm => ?_
    rw [Option.map_eq_some_iff] at hm
    obtain ⟨d, hd, rfl⟩ := hm
    have := hheld d hd
    omega
  rcases hi.leases h e hh with ⟨a, b, c⟩ | ⟨a, b, c, d⟩
  · omega
  · omega

/-- One reference given up: the count falls, or the entry is retired and what it owned is
queued.  No check fails. -/
lemma releaseOne_spec (hi : Inv (own + (Value.heap h).refs) held s)
    (hheld : ∀ d ∈ held, 1 ≤ own d.handle) :
    wp (releaseOne h)
      (fun _ t => Inv own held t ∧ ReleaseStep h s t ∧
        t.total (fun _ x => x.strong) + 1 = s.total (fun _ x => x.strong))
      (fun _ _ => False) s := by
  obtain ⟨e, he⟩ := hi.counts.live_of_own (k := h) (by
    rw [Pi.add_apply, Value.refs_self]
    omega)
  have hpos := hi.counts.alive h e he
  refine wp_read_bind (fun x hx => ?_) fun x hx => ?_
  · rw [entry_eq_ok.2 ⟨hi.table.isOpen, he⟩] at hx
    cases hx
  obtain ⟨-, hx⟩ := entry_eq_ok.1 hx
  obtain rfl := Option.some.inj (he.symm.trans hx)
  refine wp_guardWith_bind (fun hn => hn hpos) fun _ => ?_
  split_ifs with hs
  · -- The entry has other owners: only its count changes.
    rw [wp_update]
    have hf : 1 ≤ e.strong - 1 := by omega
    refine ⟨?_, .lowered e he (by omega) rfl, ?_⟩
    · refine hi.rewrite (n := s.edges) (b := s.bytes) he
        (fun e => { e with strong := e.strong - 1 }) (fun _ => ⟨rfl, rfl⟩) (fun k => ?_) hf
        ⟨rfl, fun _ => rfl, fun _ => rfl, fun _ => rfl⟩ rfl rfl hi.counts.bytes_le hi.counts.room
        hheld
      rw [Pi.add_apply]
      by_cases hk : k = h
      · subst hk
        simp only [if_true, Value.refs_self]
        omega
      · simp only [if_neg hk, Value.refs_of_ne (Ne.symm hk)]
        omega
    · have := total_modify (fun _ x => x.strong) he (fun e => { e with strong := e.strong - 1 })
      simp only at this
      omega
  · have h1 : e.strong = 1 := by omega
    have hchild : e.payload.edges ≤ s.edges := by
      have h2 := hi.counts.edges
      have h3 := le_sum Payload.edges he
      omega
    have hbytes : e.chargedBytes ≤ s.bytes := by
      rw [hi.counts.bytes]
      exact le_total (fun _ x => x.chargedBytes) he
    have hlive : 1 ≤ s.live := by
      rw [hi.counts.live]
      exact le_total (fun _ _ => 1) he
    have hroom := hi.counts.room
    refine wp_guardWith_bind (fun hn => hn (hi.readers_eq_zero hheld he h1)) fun _ => ?_
    rw [wp_get_bind]
    refine wp_guardWith_bind (fun hn => hn (hi.table.linksAgree he)) fun _ => ?_
    refine wp_guardWith_bind (fun hn => hn hbytes) fun _ => ?_
    refine wp_guardWith_bind (fun hn => hn hlive) fun _ => ?_
    refine wp_guardWith_bind (fun hn => hn fun hc => ?_) fun _ => ?_
    · have := hi.table.free_lt he
      omega
    refine wp_ofExcept_bind (fun x hx => ?_) fun _ _ => ?_
    · unfold childrenRoom at hx
      rw [if_neg (by omega)] at hx
      cases hx
    rw [wp_update_bind, wp_update_bind]
    obtain ⟨-, hli, hwo, -, -, -, hby, hlv⟩ := retire_frame s h e
    have hbl : ({ s.retire h e with
          bytes := (s.retire h e).bytes - e.chargedBytes, live := (s.retire h e).live - 1 } : Store) =
        { s.retire h e with bytes := s.bytes - e.chargedBytes, live := s.live - 1 } := by
      rw [hby, hlv]
    change wp (enqueueChildren e.payload) _ _ { s.retire h e with
          bytes := (s.retire h e).bytes - e.chargedBytes, live := (s.retire h e).live - 1 }
    rw [hbl]
    have htab : Table { s.retire h e with bytes := s.bytes - e.chargedBytes, live := s.live - 1 } :=
      (hi.table.retire he).of_same
        ⟨rfl, rfl, rfl, rfl, rfl, Nat.le_refl _, rfl, fun _ => rfl, fun _ => rfl⟩
    refine wp_mono (enqueueChildren_spec (hi.counts.retire he h1) htab (hi.leases.retire he)) ?_
      fun _ _ h => h
    rintro - t ⟨hc, ht, hl, hq⟩
    refine ⟨⟨hc, ht, hl, hheld⟩, .freed e he h1 ?_ ?_ ?_ ?_ ?_ ?_ ?_ ?_, ?_⟩
    · rw [hq.lookup]
      change ((s.retire h e).at? h).map _ = none
      rw [at?_retire_self he]
      rfl
    · intro k hk
      rw [hq.lookup]
      change ((s.retire h e).at? k).map _ = _
      rw [at?_retire_of_ne he hk, Option.map_map]
      rfl
    · intro φ
      have hsum := sum_retire he φ
      have hsums := hq.sums φ
      rcases hr : e.payload.restores with _ | ⟨c, values⟩
      · simp only [hr] at hsums ⊢
        change t.sum φ = (s.retire h e).sum φ at hsums
        omega
      · simp only [hr] at hsums ⊢
        change t.sum φ + _ = (s.retire h e).sum φ + _ at hsums
        omega
    · rw [hq.work]
      change _ ++ (s.retire h e).work = _
      rw [hwo]
    · rw [hq.same.length]
      exact retire_length
    · rw [hq.same.limits]
      exact hli
    · intro o ho hm
      rw [hq.same.prevOf, hq.same.nextOf, hq.same.first, hq.same.last]
      simp only [hq.same.isSome]
      exact linked_retire ho hm he
    · intro i hif
      rw [hq.same.free] at hif
      change i ∈ (s.retire h e).free at hif
      rw [(retire_ends s h e).2.2] at hif
      rcases vacated_slot he with ⟨-, hf, -⟩ | ⟨-, hf, -⟩
      · rw [hf] at hif
        exact (List.mem_cons.1 hif).symm
      · rw [hf] at hif
        exact .inl hif
    · have hsum := total_retire he (φ := fun _ x => x.strong) fun _ _ _ => rfl
      have := hq.strong
      change _ = (s.retire h e).total (fun _ x => x.strong) at this
      omega

/-! ## The drain -/

/-- The invariant does not see where a queued reference is counted. -/
lemma Inv.pop {rest : List Value} (hi : Inv own held s) (hw : s.work = .heap h :: rest) :
    Inv (own + (Value.heap h).refs) held { s with work := rest } where
  counts :=
    { balance := fun k => by
        have := hi.counts.balance k
        rw [hw, refsIn_cons] at this
        rw [Pi.add_apply]
        change s.strongAt k = own k + (Value.heap h).refs k + refsIn rest k + s.sum (·.refs k)
        omega
      alive := hi.counts.alive
      edges := hi.counts.edges
      bytes := hi.counts.bytes
      bytes_le := hi.counts.bytes_le
      live := hi.counts.live
      queued := fun v hv => hi.counts.queued v (by rw [hw]; exact List.mem_cons_of_mem _ hv)
      room := by
        have := hi.counts.room
        rw [hw, List.length_cons] at this
        change s.edges + rest.length + 1 ≤ s.workCap
        omega }
  table := hi.table.of_same
    ⟨rfl, rfl, rfl, rfl, rfl, Nat.le_refl _, rfl, fun _ => rfl, fun _ => rfl⟩
  leases := hi.leases
  held_owned := fun d hd => (hi.held_owned d hd).trans (Nat.le_add_right _ _)

/-- A property of the store that follows the pending releases through a cascade: `P q` speaks of
a store in which the references `q` are about to be given up. -/
structure Follows (own : Handle → Nat) (held : Option Hold) (P : (Handle → Nat) → Store → Prop) :
    Prop where
  pop : ∀ q u w, P q u → P q { u with work := w }
  step : ∀ h u t, Inv (own + (Value.heap h).refs) held u → Inv own held t → ReleaseStep h u t →
    P ((Value.heap h).refs + refsIn u.work) u → P (refsIn t.work) t

/-- A drain with enough fuel releases everything queued. -/
lemma drainLoop_spec {P : (Handle → Nat) → Store → Prop} (hP : Follows own held P) (fuel : Nat)
    (hi : Inv own held s) (hfuel : s.total (fun _ x => x.strong) < fuel) (hp : P (refsIn s.work) s) :
    wp (drainLoop fuel none) (fun _ t => Inv own held t ∧ t.work = [] ∧ P 0 t)
      (fun _ _ => False) s := by
  induction fuel generalizing s with
  | zero => omega
  | succ fuel ih =>
      unfold drainLoop
      rw [wp_get_bind]
      rcases hw : s.work with _ | ⟨v, rest⟩
      · refine ⟨hi, hw, ?_⟩
        rw [hw] at hp
        exact hp
      · have hv := hi.counts.queued v (by rw [hw]; exact List.mem_cons_self)
        cases v with
        | heap h =>
            simp only
            rw [wp_update_bind, wp_bind, wp_attempt]
            have hi' := hi.pop hw
            refine wp_mono (releaseOne_spec hi' hi.held_owned) ?_ fun _ _ h => h.elim
            rintro - t ⟨hit, hstep, hstrong⟩
            change wp (drainLoop fuel none) _ _ t
            refine ih hit ?_ ?_
            · have hlt : t.total (fun _ x => x.strong) + 1 = s.total (fun _ x => x.strong) := hstrong
              omega
            · refine hP.step h _ t hi' hit hstep ?_
              refine hP.pop _ _ _ ?_
              have hsum : (Value.heap h).refs + refsIn rest = refsIn (Value.heap h :: rest) := by
                funext k
                simp
              rw [hw, ← hsum] at hp
              exact hp
        | _ => cases hv

lemma drainWork_spec {P : (Handle → Nat) → Store → Prop} (hP : Follows own held P)
    (hi : Inv own held s) (hp : P (refsIn s.work) s) :
    wp (drainWork none) (fun _ t => Inv own held t ∧ t.work = [] ∧ P 0 t)
      (fun _ _ => False) s := by
  unfold drainWork
  rw [wp_get_bind]
  exact drainLoop_spec hP _ hi (by unfold drainFuel; omega) hp

/-- Releasing an owned value succeeds and leaves an empty release list, whatever the shape of the
object graph; what `P` says follows the cascade. -/
lemma release_follows {P : (Handle → Nat) → Store → Prop} {v : Value} (hP : Follows own held P)
    (hi : Inv (own + v.refs) held s) (hheld : ∀ d ∈ held, 1 ≤ own d.handle)
    (hp : P (v.refs + refsIn s.work) s) :
    wp (release v) (fun _ t => Inv own held t ∧ t.work = [] ∧ P 0 t) (fun _ _ => False) s := by
  unfold release ensureOpen
  rw [wp_bind, wp_get_bind]
  refine wp_guardWith (fun hn => hn hi.table.isOpen) fun _ => ?_
  cases v with
  | heap h =>
      simp only
      rw [wp_get_bind]
      have hroom := hi.counts.room
      rw [if_neg (by omega), wp_bind, wp_attempt]
      refine wp_mono (releaseOne_spec hi hheld) ?_ fun _ _ h => h.elim
      rintro - t ⟨hit, hstep, -⟩
      change wp (drainWork none) _ _ t
      exact drainWork_spec hP hit (hP.step h s t hi hit hstep hp)
  | _ =>
      rw [refs_eq_zero_of_scalar rfl, add_zero] at hi
      rw [refs_eq_zero_of_scalar rfl, zero_add] at hp
      exact drainWork_spec hP hi hp

/-- Releasing an owned value never fails. -/
lemma release_spec {v : Value} (hi : Inv (own + v.refs) held s)
    (hheld : ∀ d ∈ held, 1 ≤ own d.handle) :
    wp (release v) (fun _ t => Inv own held t ∧ t.work = []) (fun _ _ => False) s :=
  wp_mono (release_follows (P := fun _ _ => True)
      ⟨fun _ _ _ _ => trivial, fun _ _ _ _ _ _ _ => trivial⟩ hi hheld trivial)
    (fun _ _ h => ⟨h.1, h.2.1⟩) fun _ _ h => h

end Store

end Rnx
