import Rnx.Store.Sorting

/-!
# Taking payloads out of their entries

`takeCapture` moves a payload, its children and any lease it has to a new entry and leaves a
tombstone behind; `invalidate` leaves a tombstone and releases what the payload owned.  The
diagnostic name of an iterator that became a tombstone is kept aside.
-/

namespace Rnx

open ErrState (get update fail read attempt ofExcept guardWith)

namespace Store

/-! ## Moving a payload -/

/-- The checks that precede taking a payload: no readers, not moved out, not a guard. -/
def takeCheck (s : Store) (h : Handle) : Except Error Entry := do
  let e ← s.entry h
  if e.readers ≠ 0 then
    .error (conflict .take e)
  else
    match e.payload with
    | .moved _ => .error ((err .accessConflict).withDetail (.moved .take))
    | .sortGuard _ => .error (err .invalidCode)
    | _ => .ok e

/-- The payload and the charge of `old` move to `new`. -/
def transfer (old new : Handle) (e : Entry) (s : Store) : Store :=
  s.modifyTwo old new
    (fun x => { x with payload := .moved e.payload.tag, chargedBytes := 0 })
    (fun x => { x with payload := e.payload, chargedBytes := e.chargedBytes })

/-- Transfer a payload to an entry of its own.  The new entry is reserved as an empty tuple, which
owns nothing and costs nothing, so its admission alters no owner of the old payload. -/
def takeCapture (v : Value) : M Value := do
  ensureOpen
  match v with
  | .heap old => do
      let e ← read (·.takeCheck old)
      match ← admitPayload (.list .tuple .empty) with
      | .heap new => do
          update (transfer old new e)
          pure (.heap new)
      | _ => fail (err .invalidCode)
  | v => pure v

/-! ## Tombstones -/

/-- Whether the entry a name was kept for is still the tombstone of an iterator. -/
def isIteratorTombstone (s : Store) (h : Handle) : Bool :=
  (s.at? h).any fun e => e.payload = .moved .iterator

/-- Drop names whose tombstone is gone, when as many are kept as the last sweep allowed. -/
def sweepNames (s : Store) : Store :=
  if s.opaqueNames.length ≥ s.opaqueSweepAt then
    let kept := s.opaqueNames.filter fun p => s.isIteratorTombstone p.1
    { s with
      opaqueNames := kept
      opaqueSweepAt := max (min (kept.length * 2) usizeMax) 8 }
  else
    s

/-- Reserve a place for the name of an iterator about to become a tombstone. -/
def prepareOpaqueDrop (h : Handle) : M (Option TypeName) := do
  let e ← read (·.entry h)
  if e.payload.tag ≠ .iterator then
    pure none
  else do
    let name ← read (·.typeName (.heap h))
    update sweepNames
    let s ← get
    match grow s.opaqueCap s.opaqueNames.length 1 with
    | none => pure ()
    | some cap => do
        alloc (cap * 16)
        update (fun s => { s with opaqueCap := cap })
    pure (some name)

/-- An entry becomes a tombstone; the name of an iterator is kept. -/
def entomb (h : Handle) (bytes : Nat) (name : Option TypeName) (s : Store) : Store :=
  { s.modify h.slot fun e => { e with payload := .moved e.payload.tag, chargedBytes := 0 } with
    bytes := bytes
    opaqueNames := s.opaqueNames ++ (name.map fun n => (h, n)).toList }

/-- Give up what an entry's payload owns, leaving a tombstone. -/
def invalidate (v : Value) : M Unit :=
  match v with
  | .heap h => do
      let e ← read (·.takeCheck h)
      read (·.childrenRoom e.payload)
      let s ← get
      let bytes ← ofExcept (okOr (checkedSub s.bytes e.chargedBytes) (err .invalidCode))
      let name ← prepareOpaqueDrop h
      update (entomb h bytes name)
      match ← attempt (enqueueChildren e.payload) with
      | .ok () => drainWork none
      | .error x => drainWork (some x)
  | _ => pure ()

/-! ## Specifications -/

open ErrState

variable {s t u : Store} {h k old new : Handle} {e : Entry} {own : Handle → Nat}
  {held : Option Hold}

lemma takeCheck_eq_ok (he : s.takeCheck h = .ok e) :
    s.closed = false ∧ s.at? h = some e ∧ e.readers = 0 ∧ e.payload.exclusive = none := by
  unfold takeCheck at he
  rw [Except.bind_eq_ok] at he
  obtain ⟨x, hx, he⟩ := he
  obtain ⟨hcl, hx⟩ := entry_eq_ok.1 hx
  split_ifs at he with hr
  split at he
  · cases he
  · cases he
  · next hng =>
    obtain rfl := Except.ok.inj he
    refine ⟨hcl, hx, by simpa using hr, ?_⟩
    cases hp : x.payload with
    | sortGuard st => exact absurd hp (hng st)
    | _ => rfl

/-- A transferred payload keeps its children and its lease. -/
lemma Admission.transferred (hi : Inv own held s) (hold : s.at? old = some e) (hr : e.readers = 0)
    (ha : Admission (.list .tuple .empty) s t new)
    (hit : Inv (own + (Value.heap new).refs) held t) :
    Inv (own + (Value.heap new).refs) held (transfer old new e t) := by
  obtain ⟨charged, hb, hnew⟩ := ha.lookup_new hi.table
  have hb0 : charged = 0 := (Except.ok.inj hb).symm
  subst hb0
  have hne : old ≠ new := by
    rintro rfl
    have := ha.fresh
    rw [hold] at this
    cases this
  obtain ⟨a, i, -, hx⟩ := ha.lookup_old hi.table hne
  rw [hold] at hx
  obtain ⟨k1, k2, k3, -⟩ := @grown_kept (.list .tuple .empty) a i s.last ⟨rfl, rfl⟩ old e
  refine
    { counts := hit.counts.pair hx hnew hne rfl rfl (fun j => ?_) ?_ ?_
      table := hit.table.of_same
        (sameTable_modifyTwo _ _ _ (fun _ => ⟨rfl, rfl⟩) fun _ => ⟨rfl, rfl⟩)
      leases := hit.leases.pair hx hnew hne rfl rfl ?_ ?_ (fun j => ?_) fun j => ?_
      held_owned := hit.held_owned }
  · rw [k1]
    exact Nat.add_comm _ _
  · rw [k1]
    exact Nat.add_comm _ _
  · rw [k3]
    exact Nat.add_comm _ _
  · rw [k2, hr]
    decide
  · change (0 : Nat) ≠ exclusiveReaders
    decide
  · rw [k1]
    exact Nat.add_comm _ _
  · rw [k1]
    exact Nat.add_comm _ _

lemma takeCapture_atomic (hi : Inv own held s) (hw : s.work = []) (v : Value) :
    Atomic own held Value.refs (takeCapture v) s := by
  refine atomic_ensureOpen_bind (.refl s) ?_
  cases v with
  | heap old =>
      refine atomic_read_bind (.refl s) fun e he => ?_
      obtain ⟨-, hold, hr, -⟩ := takeCheck_eq_ok he
      refine wp_seq (admit_inv hi (.inr ⟨rfl, rfl⟩)) (fun _ _ h => h) ?_
      rintro _ t ⟨new, rfl, ha, hit⟩
      simp only
      rw [wp_update_bind]
      exact ⟨ha.transferred hi hold hr hit, ha.fields.1.trans hw⟩
  | _ =>
      refine ⟨?_, hw⟩
      rw [refs_eq_zero_of_scalar rfl, add_zero]
      exact hi

/-- Names kept aside are no part of the invariant. -/
lemma Inv.names (hi : Inv own held s) (names : List (Handle × TypeName)) (sweepAt : Nat) :
    Inv own held { s with opaqueNames := names, opaqueSweepAt := sweepAt } where
  counts := ⟨hi.counts.balance, hi.counts.alive, hi.counts.edges, hi.counts.bytes,
    hi.counts.bytes_le, hi.counts.live, hi.counts.queued, hi.counts.room⟩
  table := hi.table.of_same
    ⟨rfl, rfl, rfl, rfl, rfl, Nat.le_refl _, rfl, fun _ => rfl, fun _ => rfl⟩
  leases := hi.leases
  held_owned := hi.held_owned

/-- `t` is `s` but for the names kept aside and reserved capacity. -/
structure Renamed (s t : Store) : Prop where
  names : ∃ u names sweepAt,
    u = { s with opaqueNames := names, opaqueSweepAt := sweepAt } ∧ Reserved u t

lemma Renamed.at? (hr : Renamed s t) (k : Handle) : t.at? k = s.at? k := by
  obtain ⟨u, n, m, rfl, hr⟩ := hr.names
  exact hr.at? k

lemma Renamed.inv (hr : Renamed s t) (hi : Inv own held s) : Inv own held t := by
  obtain ⟨u, n, m, rfl, hr⟩ := hr.names
  exact (hi.names n m).reserved hr

lemma Renamed.work (hr : Renamed s t) : t.work = s.work := by
  obtain ⟨u, n, m, rfl, hr⟩ := hr.names
  exact hr.work

lemma Renamed.bytes (hr : Renamed s t) : t.bytes = s.bytes ∧ t.limits = s.limits := by
  obtain ⟨u, n, m, rfl, hr⟩ := hr.names
  exact ⟨hr.bytes, hr.limits⟩

lemma Reserved.renamed (hr : Reserved s t) : Renamed s t := ⟨⟨s, _, _, rfl, hr⟩⟩

lemma prepareOpaqueDrop_spec (h : Handle) :
    wp (prepareOpaqueDrop h) (fun _ t => Renamed s t) (fun _ t => Renamed s t) s := by
  have hself : Renamed s s := (Reserved.refl s).renamed
  refine wp_read_bind (fun _ _ => hself) fun e _ => ?_
  split_ifs
  · exact hself
  · refine wp_read_bind (fun _ _ => hself) fun name _ => ?_
    rw [wp_update_bind, wp_get_bind]
    have hsweep : Renamed s s.sweepNames := by
      unfold sweepNames
      split_ifs
      · exact ⟨⟨_, _, _, rfl, .refl _⟩⟩
      · exact hself
    obtain ⟨u, n, m, hu, hr⟩ := hsweep.names
    simp only
    split
    · exact hsweep
    · refine wp_bind.2 (wp_mono (alloc_spec _) ?_ ?_)
      · rintro - _ ⟨a, rfl⟩
        exact ⟨⟨u, n, m, hu, hr.trans ⟨rfl, Nat.le_refl _, Nat.le_refl _⟩⟩⟩
      · rintro - _ ⟨a, rfl⟩
        exact ⟨⟨u, n, m, hu, hr.trans (.spent a)⟩⟩

/-- A tombstone owns nothing: what the payload owned is still counted, for the release to come. -/
lemma entomb_spec {bytes : Nat} (name : Option TypeName) (hi : Inv own held s)
    (hh : s.at? h = some e) (hr : e.readers = 0) (hb : bytes + e.chargedBytes = s.bytes) :
    Counts (own + e.payload.refs) (heldEdges held + e.payload.edges) (s.entomb h bytes name) ∧
      Table (s.entomb h bytes name) ∧ LeasesWith e.payload held (s.entomb h bytes name) := by
  have hstrong : 1 ≤ e.strong := hi.counts.alive _ _ hh
  have hle := hi.counts.bytes_le
  refine ⟨?_, ?_, ?_⟩
  · have hc : Counts (own + e.payload.refs) (heldEdges held + e.payload.edges)
        { s.modify h.slot fun e => { e with payload := .moved e.payload.tag, chargedBytes := 0 } with
          edges := s.edges, bytes := bytes } := by
      refine hi.counts.rewrite (n := s.edges) hh _ (fun k => ?_) hstrong ?_ ?_ (by omega)
        hi.counts.room
      · rw [Pi.add_apply]
        change own k + e.payload.refs k + 0 + (if k = h then e.strong else 0) =
          own k + e.payload.refs k + (if k = h then e.strong else 0)
        omega
      · change s.edges + e.payload.edges + heldEdges held = s.edges + 0 + _
        omega
      · exact hb
    exact ⟨hc.balance, hc.alive, hc.edges, hc.bytes, hc.bytes_le, hc.live, hc.queued, hc.room⟩
  · refine (hi.table.of_same (sameTable_modify s h.slot (f := fun e =>
      { e with payload := .moved e.payload.tag, chargedBytes := 0 }) fun _ => ⟨rfl, rfl⟩)).of_same ?_
    exact ⟨rfl, rfl, rfl, rfl, rfl, Nat.le_refl _, rfl, fun _ => rfl, fun _ => rfl⟩
  · intro k x hx
    have h1 : (s.entomb h bytes name).sum (·.leases k) + e.payload.leases k = s.sum (·.leases k) :=
      sum_modify (·.leases k) hh fun e => { e with payload := .moved e.payload.tag, chargedBytes := 0 }
    have h2 : (s.entomb h bytes name).sum (·.holds k) + e.payload.holds k = s.sum (·.holds k) :=
      sum_modify (·.holds k) hh fun e => { e with payload := .moved e.payload.tag, chargedBytes := 0 }
    have h3 : (s.entomb h bytes name).sum (·.holds k) + heldAt held k + e.payload.holds k =
        s.sum (·.holds k) + heldAt held k := by omega
    rw [h1, h3]
    change (s.modify h.slot fun e =>
      { e with payload := .moved e.payload.tag, chargedBytes := 0 }).at? k = some x at hx
    rw [at?_modify hh] at hx
    split_ifs at hx with hk
    · subst hk
      obtain rfl := Option.some.inj hx
      rcases hi.leases _ _ hh with ⟨a, b, c⟩ | ⟨-, -, c, -⟩
      · exact .inl ⟨a, b, c⟩
      · rw [hr] at c
        cases c
    · exact hi.leases _ _ hx

lemma invalidate_keeps (hi : Inv own held s) (hw : s.work = []) (v : Value) :
    Keeps own held (fun _ => 0) (invalidate v) s := by
  have hself : Inv own held s ∧ s.work = [] := ⟨hi, hw⟩
  cases v with
  | heap h =>
      refine wp_read_bind (fun _ _ => hself) fun e he => ?_
      obtain ⟨-, hh, hr, -⟩ := takeCheck_eq_ok he
      refine wp_read_bind (fun _ _ => hself) fun _ _ => wp_get_bind.2 ?_
      refine wp_ofExcept_bind (fun _ _ => hself) fun bytes hb => ?_
      obtain ⟨hle, hb⟩ := checkedSub_eq_some (okOr_eq_ok.1 hb)
      refine wp_seq (prepareOpaqueDrop_spec h)
        (fun _ _ hn => ⟨hn.inv hi, hn.work.trans hw⟩) fun name t hn => ?_
      have hit := hn.inv hi
      have hlow : bytes + e.chargedBytes = t.bytes := by
        rw [hn.bytes.1]
        omega
      obtain ⟨hc, ht, hl⟩ := entomb_spec name hit (hn.at? h ▸ hh) hr hlow
      rw [wp_update_bind, wp_bind, wp_attempt]
      refine wp_mono (enqueueChildren_spec hc ht hl) ?_ fun _ _ h => h.elim
      rintro ⟨⟩ u ⟨hcu, htu, hlu, -⟩
      refine wp_mono (drainWork_spec (P := fun _ _ => True)
        ⟨fun _ _ _ _ => trivial, fun _ _ _ _ _ _ _ => trivial⟩ ⟨hcu, htu, hlu, hi.held_owned⟩
        trivial) ?_ fun _ _ h => h.elim
      rintro - w ⟨hiw, hww, -⟩
      exact ⟨by simpa using hiw, hww⟩
  | _ => exact ⟨by simpa using hi, hw⟩

end Store

end Rnx
