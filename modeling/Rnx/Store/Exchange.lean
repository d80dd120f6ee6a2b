import Rnx.Store.Mutation

/-!
# Exchanges are atomic

An operation is *atomic* when it either does all of its work or leaves the store as it was but
for reserved capacity.  The rules below take a program apart step by step: observations and
allocations change nothing that matters, and the exchange at the end cannot fail once the new
value is retained, because releasing the old one cannot.
-/

namespace Rnx

open ErrState

/-- A payload that leases nothing and holds nothing. -/
structure Payload.Plain (p : Payload) : Prop where
  lease : p.lease = none
  exclusive : p.exclusive = none

lemma Payload.Plain.leases {p : Payload} (hp : p.Plain) (k : Handle) : p.leases k = 0 := by
  simp [Payload.leases, hp.lease]

lemma Payload.Plain.holds {p : Payload} (hp : p.Plain) (k : Handle) : p.holds k = 0 := by
  simp [Payload.holds, hp.exclusive]

namespace Store

variable {s t u : Store} {h k : Handle} {e : Entry} {own own' : Handle → Nat}
  {held : Option Hold} {α β : Type}

/-! ## Atomic operations -/

/-- `m` returns with the references `give` handed to the caller and nothing pending, or fails
with everything but reserved capacity as it was in `s₀`. -/
def AtomicFrom (s₀ : Store) (own : Handle → Nat) (held : Option Hold) (give : α → Handle → Nat)
    (m : M α) (s : Store) : Prop :=
  wp m (fun a t => Inv (own + give a) held t ∧ t.work = []) (fun _ t => Reserved s₀ t) s

/-- `m` does all of its work or none. -/
def Atomic (own : Handle → Nat) (held : Option Hold) (give : α → Handle → Nat) (m : M α)
    (s : Store) : Prop := AtomicFrom s own held give m s

variable {give : α → Handle → Nat} {m : M α} {s₀ : Store}

lemma atomic_fail (hr : Reserved s₀ s) (e : Error) : AtomicFrom s₀ own held give (fail e) s := hr

lemma atomic_read_bind {f : Store → Except Error β} {k : β → M α} (hr : Reserved s₀ s)
    (hk : ∀ b, f s = .ok b → AtomicFrom s₀ own held give (k b) s) :
    AtomicFrom s₀ own held give (read f >>= k) s :=
  wp_read_bind (fun _ _ => hr) hk

lemma atomic_get_bind {k : Store → M α} (hk : AtomicFrom s₀ own held give (k s) s) :
    AtomicFrom s₀ own held give (get >>= k) s :=
  wp_get_bind.2 hk

lemma atomic_ofExcept_bind {r : Except Error β} {k : β → M α} (hr : Reserved s₀ s)
    (hk : ∀ b, r = .ok b → AtomicFrom s₀ own held give (k b) s) :
    AtomicFrom s₀ own held give (ofExcept r >>= k) s :=
  wp_ofExcept_bind (fun _ _ => hr) hk

lemma atomic_guard_bind {c : Prop} [Decidable c] {x : Error} {k : Unit → M α}
    (hr : Reserved s₀ s) (hk : c → AtomicFrom s₀ own held give (k ()) s) :
    AtomicFrom s₀ own held give (guardWith c x >>= k) s :=
  wp_guardWith_bind (fun _ => hr) hk

lemma wp_alloc_bind {n : Nat} {k : Unit → M α} {Q : α → Store → Prop} (hr : Reserved s₀ s)
    (hk : ∀ t, Reserved s t → wp (k ()) Q (fun _ t => Reserved s₀ t) t) :
    wp (alloc n >>= k) Q (fun _ t => Reserved s₀ t) s := by
  refine wp_seq (alloc_spec n) (fun _ _ ⟨a, h⟩ => h ▸ hr.trans (.spent a)) ?_
  rintro - _ ⟨a, rfl⟩
  exact hk _ (.spent a)

lemma atomic_alloc_bind {n : Nat} {k : Unit → M α} (hr : Reserved s₀ s)
    (hk : ∀ t, Reserved s t → AtomicFrom s₀ own held give (k ()) t) :
    AtomicFrom s₀ own held give (alloc n >>= k) s :=
  wp_alloc_bind hr hk

lemma atomic_ensureOpen_bind {k : Unit → M α} (hr : Reserved s₀ s)
    (hk : AtomicFrom s₀ own held give (k ()) s) :
    AtomicFrom s₀ own held give (ensureOpen >>= k) s := by
  refine wp_bind.2 (wp_get_bind.2 (wp_guardWith (fun _ => hr) fun _ => hk))

lemma wp_ensureRoom_bind {n : Nat} {k : Unit → M α} {Q : α → Store → Prop} (hr : Reserved s₀ s)
    (hk : n ≤ s.roomLeft → wp (k ()) Q (fun _ t => Reserved s₀ t) s) :
    wp (ensureRoom n >>= k) Q (fun _ t => Reserved s₀ t) s := by
  refine wp_bind.2 (wp_get_bind.2 (wp_guardWith (fun _ => hr) hk))

lemma atomic_ensureRoom_bind {n : Nat} {k : Unit → M α} (hr : Reserved s₀ s)
    (hk : n ≤ s.roomLeft → AtomicFrom s₀ own held give (k ()) s) :
    AtomicFrom s₀ own held give (ensureRoom n >>= k) s :=
  wp_ensureRoom_bind hr hk

/-- Reservations in front of an operation do not spoil it. -/
lemma Atomic.after (hm : Atomic own held give m s) (hr : Reserved s₀ s) :
    AtomicFrom s₀ own held give m s :=
  wp_mono hm (fun _ _ h => h) fun _ _ h => hr.trans h

/-- The rest of an operation whose first part is atomic and hands over `give`. -/
lemma AtomicFrom.bind {k : α → M β} {give' : β → Handle → Nat}
    (hm : AtomicFrom s₀ own held give m s)
    (hk : ∀ a t, Inv (own + give a) held t → t.work = [] →
      AtomicFrom s₀ own held give' (k a) t) :
    AtomicFrom s₀ own held give' (m >>= k) s :=
  wp_seq hm (fun _ _ h => h) fun a t ht => hk a t ht.1 ht.2

/-! ## Reads survive reservations -/

lemma Reserved.entry (hr : Reserved s t) (k : Handle) : t.entry k = s.entry k := by
  unfold Store.entry
  rw [hr.closed, hr.at?]

lemma Reserved.payload (hr : Reserved s t) (k : Handle) : t.payload k = s.payload k := by
  unfold Store.payload
  rw [hr.entry]

lemma Reserved.text (hr : Reserved s t) (v : Value) : t.text v = s.text v := by
  unfold Store.text
  cases v <;> simp only [hr.payload]

/-- What a successful access for writing says. -/
lemma mutable_eq_ok {p : Payload} :
    s.mutable h = .ok p ↔ s.closed = false ∧ ∃ e, s.at? h = some e ∧ e.readers = 0 ∧
      e.payload = p ∧ p.isMoved = false := by
  unfold «mutable»
  rw [Except.bind_eq_ok]
  constructor
  · rintro ⟨e, he, hp⟩
    obtain ⟨hcl, he⟩ := entry_eq_ok.1 he
    split_ifs at hp with h1 h2
    obtain rfl := Except.ok.inj hp
    exact ⟨hcl, e, he, by simpa using h1, rfl, by simpa using h2⟩
  · rintro ⟨hcl, e, he, hr, rfl, hm⟩
    exact ⟨e, entry_eq_ok.2 ⟨hcl, he⟩, by simp [hr, hm]⟩

lemma replacementBytes_eq_ok {charged b : Nat} (hb : s.replacementBytes h charged = .ok b)
    (hh : s.at? h = some e) :
    b + e.chargedBytes = s.bytes + charged ∧ b ≤ s.limits.bytes := by
  unfold replacementBytes at hb
  simp only [Except.bind_eq_ok, okOr_eq_ok, Option.bind_eq_some_iff] at hb
  obtain ⟨e', he', n, ⟨m, hm, hn⟩, hle⟩ := hb
  obtain ⟨-, he'⟩ := entry_eq_ok.1 he'
  obtain rfl := Option.some.inj (hh.symm.trans he')
  have h1 := checkedSub_eq_some hm
  have h2 := checkedAdd_eq_some hn
  split_ifs at hle with hlt
  obtain rfl := Except.ok.inj hle
  omega

/-! ## Retaining -/

/-- A retained value is owned by the caller. -/
lemma retain_inv (hi : Inv own held s) (v : Value) :
    wp (retain v)
      (fun _ t => t = s.bump v.refs ∧ Inv (own + v.refs) held t)
      (fun _ t => t = s) s := by
  have hz : s.bump 0 = s := bump_zero s
  have hspec := retain_spec (s := s) v 0
  rw [hz, zero_add] at hspec
  refine wp_mono hspec ?_ fun _ _ h => h
  rintro - t ⟨rfl, hv⟩
  exact ⟨rfl, hi.bump (liveAt_refs hv)⟩

lemma replacementEdges_spec (old new : Value) :
    wp (replacementEdges old new)
      (fun n t => Reserved s t ∧ n + old.heapEdge = s.edges + new.heapEdge ∧
        s.edges + new.heapEdge + s.work.length + old.heapEdge + 1 ≤ t.workCap)
      (fun _ t => Reserved s t) s := by
  unfold replacementEdges
  rw [wp_get_bind]
  refine wp_ofExcept_bind (fun _ _ => .refl s) fun n hn => ?_
  rw [okOr_eq_ok, Option.bind_eq_some_iff] at hn
  obtain ⟨m, hm, hn⟩ := hn
  have h1 := checkedSub_eq_some hm
  have h2 := checkedAdd_eq_some hn
  refine wp_seq (reserveWork_spec _ _) (fun _ _ h => h) ?_
  rintro - t ⟨hr, hroom⟩
  rw [wp_pure]
  exact ⟨hr, by omega, hroom⟩

/-! ## Exchanging a child -/

/-- The payloads an exchange may go between: the references differ by the two values, the leases
do not differ. -/
structure Exchanges (p q : Payload) (old new : Value) : Prop where
  refs : ∀ k, q.refs k + old.refs k = p.refs k + new.refs k
  edges : q.edges + old.heapEdge = p.edges + new.heapEdge
  leases : ∀ k, q.leases k = p.leases k
  holds : ∀ k, q.holds k = p.holds k

/-- An entry and the counters after an exchange. -/
def exchanged (h : Handle) (q : Payload) (c : Nat → Nat) (n b : Nat) (s : Store) : Store :=
  { s.modify h.slot (fun e => { e with payload := q, chargedBytes := c e.chargedBytes }) with
    edges := n, bytes := b }

/-- Exchanging `old` for a retained `new` leaves `old` with the caller. -/
lemma Inv.exchange {p q : Payload} {old new : Value} {n b : Nat} {c : Nat → Nat}
    (hi : Inv (own + new.refs) held (s.bump new.refs)) (hheld : ∀ d ∈ held, 1 ≤ own d.handle)
    (hh : s.at? h = some e) (hread : e.readers = 0) (hp : e.payload = p)
    (hx : Exchanges p q old new) (hn : n + old.heapEdge = s.edges + new.heapEdge)
    (hroom : n + s.work.length + 1 ≤ s.workCap)
    (hb : b + e.chargedBytes = s.bytes + c e.chargedBytes) (hle : b ≤ s.limits.bytes) :
    Inv (own + old.refs) held ((s.bump new.refs).exchanged h q c n b) := by
  have ht : (s.bump new.refs).at? h = some { e with strong := e.strong + new.refs h } := by
    rw [at?_bump, hh]
    rfl
  have hstrong := hi.counts.alive h _ ht
  have hpq : ∀ k, q.refs k + old.refs k = e.payload.refs k + new.refs k := by
    rw [hp]
    exact hx.refs
  refine hi.rewrite ht _ (fun _ => ⟨rfl, rfl⟩) (fun k => ?_) hstrong
    ⟨rfl, fun k => ?_, fun k => ?_, fun hex => ?_⟩ ?_ hb hle hroom ?_
  · have := hpq k
    simp only [Pi.add_apply]
    omega
  · rw [hp]
    exact hx.leases k
  · rw [hp]
    exact hx.holds k
  · simp only [hread] at hex
    cases hex
  · have := hx.edges
    change n + e.payload.edges = s.edges + q.edges
    rw [hp]
    omega
  · intro d hd
    exact (hheld d hd).trans (Nat.le_add_right _ _)

section Exchange

variable {p q : Payload} {old new : Value} {n b : Nat} {c : Nat → Nat} {upd : Store → Store}
  (hi : Inv own held s) (hh : s.at? h = some e)
  (hread : e.readers = 0) (hp : e.payload = p)
  (hb : b + e.chargedBytes = s.bytes + c e.chargedBytes) (hle : b ≤ s.limits.bytes)
  (hupd : upd (s.bump new.refs) = (s.bump new.refs).exchanged h q c n b)

include hi hh hread hp hb hle hupd

/-- The last part of every replacement: the new value is retained, the payload and the counters
are exchanged, and the old value is released. -/
lemma exchange_spec (hr : Reserved s₀ s) (hx : Exchanges p q old new)
    (hn : n + old.heapEdge = s.edges + new.heapEdge)
    (hroom : n + s.work.length + 1 ≤ s.workCap) :
    AtomicFrom s₀ own held (fun _ => 0) (do retain new; update upd; release old) s := by
  refine wp_seq (retain_inv hi new) (fun _ _ h => h ▸ hr) ?_
  rintro - t ⟨rfl, hit⟩
  rw [wp_update_bind, hupd]
  have hi' := hit.exchange hi.held_owned hh hread hp hx hn hroom hb hle
  refine wp_mono (release_spec hi' hi.held_owned) ?_ fun _ _ h => h.elim
  rintro - t ⟨hit, hw⟩
  exact ⟨by simpa using hit, hw⟩

/-- The last part of every growth: the new value is retained and joins the payload. -/
lemma attach_spec (hr : Reserved s₀ s) (hw : s.work = []) (hx : Exchanges p q .unit new)
    (hn : n = s.edges + new.heapEdge) (hroom : n + s.work.length + 1 ≤ s.workCap) :
    AtomicFrom s₀ own held (fun _ => 0) (do retain new; update upd) s := by
  refine wp_seq (retain_inv hi new) (fun _ _ h => h ▸ hr) ?_
  rintro - t ⟨rfl, hit⟩
  rw [wp_update, hupd]
  have hi' := hit.exchange hi.held_owned hh hread hp hx hn hroom hb hle
  rw [refs_eq_zero_of_scalar (v := .unit) rfl] at hi'
  exact ⟨hi', hw⟩

end Exchange

/-- Rewriting a payload in place, without a change of ownership. -/
lemma rewrite_spec {p q : Payload} {b : Nat} {c : Nat → Nat} {upd : Store → Store}
    (hi : Inv own held s) (hw : s.work = []) (hh : s.at? h = some e) (hread : e.readers = 0)
    (hp : e.payload = p) (hb : b + e.chargedBytes = s.bytes + c e.chargedBytes)
    (hle : b ≤ s.limits.bytes) (hupd : upd s = s.exchanged h q c s.edges b)
    (hx : Exchanges p q .unit .unit) :
    AtomicFrom s₀ own held (fun _ => 0) (update upd) s := by
  have h0 : (Value.unit).refs = 0 := refs_eq_zero_of_scalar rfl
  have hi' : Inv (own + Value.unit.refs) held (s.bump Value.unit.refs) := by
    rw [h0, bump_zero]
    exact hi
  have := hi'.exchange (b := b) (c := c) hi.held_owned hh hread hp hx rfl hi.counts.room hb hle
  rw [h0, bump_zero] at this
  rw [AtomicFrom, wp_update, hupd]
  exact ⟨this, hw⟩

/-- Exchanging one child for another is atomic. -/
lemma replaceChild_atomic {p q : Payload} {old new : Value} (hi : Inv own held s)
    (hm : s.mutable h = .ok p) (hx : Exchanges p q old new) :
    Atomic own held (fun _ => 0) (replaceChild h q old new) s := by
  obtain ⟨-, e, he, hread, hp, -⟩ := mutable_eq_ok.1 hm
  refine wp_seq (replacementEdges_spec old new) (fun _ _ h => h) ?_
  rintro n t ⟨hr, hn, hroom⟩
  have hroom' : n + t.work.length + 1 ≤ t.workCap := by
    rw [hr.work]
    omega
  exact exchange_spec (n := n) (b := t.bytes) (c := fun n => n) (hi.reserved hr)
    (by rw [hr.at?]; exact he) hread hp rfl
    (by rw [hr.limits, hr.bytes]; exact hi.counts.bytes_le) rfl hr hx
    (by rw [hr.edges]; exact hn) hroom'

/-! ## Constructors -/

section Constructors

variable {p : Payload} (hi : Inv own held s₀) (hw : s₀.work = []) (hr : Reserved s₀ s)

include hi hw hr

/-- Admission at the end of an operation that has only reserved so far. -/
lemma admit_atomic (hp : p.Plain) : AtomicFrom s₀ own held Value.refs (admitPayload p) s := by
  refine wp_mono (admit_inv (hi.reserved hr) (.inr ⟨hp.lease, hp.exclusive⟩)) ?_
    fun _ _ h => hr.trans h
  rintro _ t ⟨h, rfl, ha, hit⟩
  exact ⟨hit, by rw [ha.fields.1, hr.work, hw]⟩

lemma string_atomic (l : List Char) : AtomicFrom s₀ own held Value.refs (string l) s := by
  refine atomic_ensureOpen_bind hr (atomic_ensureRoom_bind hr fun _ => ?_)
  exact atomic_alloc_bind hr fun _ ht => admit_atomic hi hw (hr.trans ht) ⟨rfl, rfl⟩

lemma stringFrom_atomic (v : Value) : AtomicFrom s₀ own held Value.refs (stringFrom v) s := by
  refine atomic_ensureOpen_bind hr (atomic_read_bind hr fun l _ => ?_)
  refine atomic_ensureRoom_bind hr fun _ => atomic_alloc_bind hr fun _ ht => ?_
  exact admit_atomic hi hw (hr.trans ht) ⟨rfl, rfl⟩

lemma list_atomic (tag : Ty) (values : List Value) :
    AtomicFrom s₀ own held Value.refs (list tag values) s := by
  refine atomic_ensureOpen_bind hr (atomic_get_bind ?_)
  split
  · exact atomic_fail hr _
  · refine atomic_guard_bind hr fun _ => atomic_ofExcept_bind hr fun n _ => ?_
    refine atomic_ensureRoom_bind hr fun _ => atomic_alloc_bind hr fun _ ht => ?_
    exact admit_atomic hi hw (hr.trans ht) ⟨rfl, rfl⟩

lemma closure_atomic (code function : Nat) (env : Value) :
    AtomicFrom s₀ own held Value.refs (closure code function env) s := by
  refine atomic_ensureOpen_bind hr ?_
  cases env with
  | heap h =>
      refine atomic_read_bind hr fun p _ => ?_
      split
      · refine atomic_ofExcept_bind hr fun n _ => ?_
        refine atomic_ensureRoom_bind hr fun _ => atomic_alloc_bind hr fun _ ht => ?_
        exact admit_atomic hi hw (hr.trans ht) ⟨rfl, rfl⟩
      · exact atomic_fail hr _
  | _ => exact atomic_fail hr _

omit hi hw in
lemma atomic_allocKeys_bind {k : Unit → M α} (fields : List (List Char × Value))
    (hk : ∀ t, Reserved s₀ t → AtomicFrom s₀ own held give (k ()) t) :
    AtomicFrom s₀ own held give (allocKeys fields >>= k) s := by
  induction fields generalizing s with
  | nil => exact hk s hr
  | cons f fs ih =>
      refine wp_bind.2 (wp_seq (alloc_spec _) (fun _ _ ⟨a, h⟩ => h ▸ hr.trans (.spent a)) ?_)
      rintro - _ ⟨a, rfl⟩
      exact wp_bind.1 (ih (hr.trans (.spent a)))

lemma record_atomic (tag : Ty) (fields : List (List Char × Value)) :
    AtomicFrom s₀ own held Value.refs (record tag fields) s := by
  refine atomic_ensureOpen_bind hr ?_
  split
  · refine atomic_ofExcept_bind hr fun n _ => atomic_get_bind (atomic_guard_bind hr fun _ => ?_)
    refine atomic_alloc_bind hr fun t ht => atomic_allocKeys_bind (hr.trans ht) _ fun u hu => ?_
    exact admit_atomic hi hw hu ⟨rfl, rfl⟩
  · refine atomic_ofExcept_bind hr fun n _ => atomic_get_bind (atomic_guard_bind hr fun _ => ?_)
    refine atomic_alloc_bind hr fun t ht => atomic_allocKeys_bind (hr.trans ht) _ fun u hu => ?_
    exact admit_atomic hi hw hu ⟨rfl, rfl⟩
  · exact atomic_fail hr _

lemma variant_atomic (tag : Ty) (success : Bool) (payload : Option Value) :
    AtomicFrom s₀ own held Value.refs (variant tag success payload) s :=
  atomic_guard_bind hr fun _ => admit_atomic hi hw hr ⟨rfl, rfl⟩

lemma rangeValues_atomic (start finish : Value) :
    AtomicFrom s₀ own held Value.refs (rangeValues start finish) s := by
  refine admit_atomic hi hw hr ?_
  unfold canonicalRange
  split <;> exact ⟨rfl, rfl⟩

omit hi hw in
lemma atomic_boxed_bind {k : Unit → M α} {n : Nat} {x : Error}
    (hk : ∀ t, Reserved s₀ t → AtomicFrom s₀ own held give (k ()) t) :
    AtomicFrom s₀ own held give (boxed n x >>= k) s := by
  refine wp_bind.2 (wp_bind.2 (wp_attempt.2 (wp_mono (alloc_spec n) ?_ ?_)))
  · rintro - _ ⟨a, rfl⟩
    exact hk _ (hr.trans (.spent a))
  · rintro x _ ⟨a, rfl⟩
    exact hr.trans (.spent a)

lemma otherRange_atomic (tag : Ty) (args : List Value) :
    AtomicFrom s₀ own held Value.refs (otherRange tag args) s := by
  unfold otherRange
  split
  · exact atomic_boxed_bind hr fun t ht => admit_atomic hi hw ht ⟨rfl, rfl⟩
  · exact atomic_fail hr _

lemma vecWithCapacity_atomic (capacity : Nat) :
    AtomicFrom s₀ own held Value.refs (vecWithCapacity capacity) s := by
  refine atomic_guard_bind hr fun _ => atomic_ensureOpen_bind hr (atomic_get_bind ?_)
  refine atomic_guard_bind hr fun _ => atomic_alloc_bind hr fun t ht => ?_
  exact admit_atomic hi hw (hr.trans ht) ⟨rfl, rfl⟩

lemma concatString_atomic (a b : Value) :
    AtomicFrom s₀ own held Value.refs (concatString a b) s := by
  refine atomic_read_bind hr fun _ _ => atomic_read_bind hr fun _ _ => ?_
  refine atomic_ofExcept_bind hr fun n _ => atomic_ensureRoom_bind hr fun _ => ?_
  exact atomic_alloc_bind hr fun t ht => admit_atomic hi hw (hr.trans ht) ⟨rfl, rfl⟩

end Constructors

/-! ## Overwriting elements and fields -/

lemma exchanges_list {tag : Ty} {values : Buf Value} {i : Nat} {old : Value}
    (ho : values.items[i]? = some old) (new : Value) :
    Exchanges (.list tag values) (.list tag (values.set i new)) old new where
  refs := refsIn_set ho new
  edges := edgesIn_set ho new
  leases _ := rfl
  holds _ := rfl

lemma exchanges_record {tag : Ty} {fields : Buf (Text × Value)} {i : Nat} {key : Text}
    {old : Value} (ho : fields.items[i]? = some (key, old)) (new : Value) :
    Exchanges (.record tag fields) (.record tag (setField fields i new)) old new := by
  have hs : (setField fields i new).items.map Prod.snd = (fields.items.map Prod.snd).set i new := by
    rw [setField, ho]
    exact List.map_set
  have hi : (fields.items.map Prod.snd)[i]? = some old := by
    rw [List.getElem?_map, ho]
    rfl
  refine ⟨fun k => ?_, ?_, fun _ => rfl, fun _ => rfl⟩
  · change refsIn ((setField fields i new).items.map Prod.snd) k + _ = _
    rw [hs]
    exact refsIn_set hi new k
  · change edgesIn ((setField fields i new).items.map Prod.snd) + _ = _
    rw [hs]
    exact edgesIn_set hi new

lemma exchanges_variant {tag : Ty} {success : Bool} {payload : Option Value} {old : Value}
    (hp : payload = some old) (new : Value) :
    Exchanges (.variant tag success payload) (.variant tag success (some new)) old new := by
  subst hp
  refine ⟨fun k => ?_, ?_, fun _ => rfl, fun _ => rfl⟩
  · simp [Payload.refs, Payload.children, Nat.add_comm]
  · simp [Payload.edges, Payload.children, Nat.add_comm]

lemma exchanges_tuplePlace {p : Payload} {i : Nat} {old : Value} (ho : tuplePlace p i = some old)
    (new : Value) : Exchanges p (withTuplePlace p i new) old new := by
  cases p with
  | list tag values => exact exchanges_list ho new
  | variant tag success payload =>
      have hp : payload = some old := by
        unfold tuplePlace at ho
        simp only at ho
        split_ifs at ho <;> exact ho
      exact exchanges_variant hp new
  | _ => cases ho

/-- An equal value owns the same references, so the old one may stay. -/
lemma atomic_keep (hi : Inv own held s) (hw : s.work = []) :
    Atomic own held (fun _ => 0) (pure ()) s := ⟨by simpa using hi, hw⟩

section Overwrite

variable (hi : Inv own held s) (hw : s.work = [])

include hi

lemma set_atomic (v : Value) (index : Nat) (new : Value) :
    Atomic own held (fun _ => 0) (set v index new) s := by
  cases v with
  | heap h =>
      refine atomic_read_bind (.refl s) fun p hm => ?_
      split
      · split
        · next ho => exact replaceChild_atomic hi hm (exchanges_list ho new)
        · exact atomic_fail (.refl s) _
      · exact atomic_fail (.refl s) _
  | _ => exact atomic_fail (.refl s) _

include hw

lemma fieldSetMut_atomic (v : Value) (key : List Char) (new : Value) :
    Atomic own held (fun _ => 0) (fieldSetMut v key new) s := by
  cases v with
  | heap h =>
      refine atomic_read_bind (.refl s) fun p hm => ?_
      split
      · split
        · split
          · next ho =>
              refine atomic_get_bind ?_
              split_ifs
              · exact atomic_keep hi hw
              · exact replaceChild_atomic hi hm (exchanges_record ho new)
          · exact atomic_fail (.refl s) _
        · exact atomic_fail (.refl s) _
      · exact atomic_fail (.refl s) _
  | _ => exact atomic_fail (.refl s) _

omit hi hw in
lemma tupleSetError_atomic (v : Value) : Atomic own held (fun _ => 0) (tupleSetError v) s :=
  atomic_read_bind (.refl s) fun _ _ => atomic_fail (.refl s) _

lemma tupleSet_atomic (v : Value) (index : Nat) (new : Value) :
    Atomic own held (fun _ => 0) (tupleSet v index new) s := by
  cases v with
  | heap h =>
      refine atomic_read_bind (.refl s) fun p hm => ?_
      split
      · next ho =>
          refine atomic_get_bind ?_
          split_ifs
          · exact atomic_keep hi hw
          · exact replaceChild_atomic hi hm (exchanges_tuplePlace ho new)
      · exact tupleSetError_atomic _
  | _ => exact tupleSetError_atomic _

omit hi hw in
lemma exchanges_tuplePlaceMut {p : Payload} {i : Nat} {old : Value}
    (ho : tuplePlaceMut p i = some old) (new : Value) :
    Exchanges p (withTuplePlace p i new) old new := by
  cases p with
  | list tag values => exact exchanges_list ho new
  | variant tag success payload =>
      unfold tuplePlaceMut at ho
      simp only at ho
      split_ifs at ho
      exact exchanges_variant ho new
  | _ => cases ho

lemma tupleSetMut_atomic (v : Value) (index : Nat) (new : Value) :
    Atomic own held (fun _ => 0) (tupleSetMut v index new) s := by
  cases v with
  | heap h =>
      refine atomic_read_bind (.refl s) fun p hm => ?_
      split
      · next ho =>
          refine atomic_get_bind ?_
          split_ifs
          · exact atomic_keep hi hw
          · exact replaceChild_atomic hi hm (exchanges_tuplePlaceMut ho new)
      · exact atomic_fail (.refl s) _
  | _ => exact atomic_fail (.refl s) _

end Overwrite

/-! ## Overwriting range endpoints -/

lemma refs_canonicalRange (a b : Value) (k : Handle) :
    (canonicalRange a b).refs k = a.refs k + b.refs k := by
  unfold canonicalRange
  split
  · simp [Payload.refs, Payload.children, Value.refs]
  · simp [Payload.refs, Payload.children]

lemma edges_canonicalRange (a b : Value) : (canonicalRange a b).edges = a.heapEdge + b.heapEdge := by
  unfold canonicalRange
  split
  · simp [Payload.edges, Payload.children, Value.heapEdge, Value.isHeap]
  · simp [Payload.edges, Payload.children]

lemma plain_canonicalRange (a b : Value) : (canonicalRange a b).Plain := by
  unfold canonicalRange
  split <;> exact ⟨rfl, rfl⟩

/-- The endpoints of a range are what it owns. -/
lemma rangeEndpoints_eq_ok {p : Payload} {a b : Value} (hp : rangeEndpoints p = .ok (a, b)) :
    p.Plain ∧ (∀ k, p.refs k = a.refs k + b.refs k) ∧ p.edges = a.heapEdge + b.heapEdge := by
  unfold rangeEndpoints at hp
  split at hp
  · obtain ⟨rfl, rfl⟩ := Prod.mk.inj (Except.ok.inj hp)
    exact ⟨⟨rfl, rfl⟩, fun k => by simp [Payload.refs, Payload.children, Value.refs],
      by simp [Payload.edges, Payload.children, Value.heapEdge, Value.isHeap]⟩
  · obtain ⟨rfl, rfl⟩ := Prod.mk.inj (Except.ok.inj hp)
    exact ⟨⟨rfl, rfl⟩, fun k => by simp [Payload.refs, Payload.children],
      by simp [Payload.edges, Payload.children]⟩
  · cases hp

/-- Two payloads without leases that differ by one child. -/
lemma exchanges_plain {p q : Payload} {old new : Value} (hp : p.Plain) (hq : q.Plain)
    (hrefs : ∀ k, q.refs k + old.refs k = p.refs k + new.refs k)
    (hedges : q.edges + old.heapEdge = p.edges + new.heapEdge) : Exchanges p q old new :=
  ⟨hrefs, hedges, fun k => by rw [hp.leases, hq.leases], fun k => by rw [hp.holds, hq.holds]⟩

lemma setRangeField_atomic (hi : Inv own held s) (h : Handle) (key : List Char) (new : Value) :
    Atomic own held (fun _ => 0) (setRangeField h key new) s := by
  unfold setRangeField
  split
  · exact atomic_fail (.refl s) _
  · next which _ =>
    refine atomic_read_bind (.refl s) fun p hm => atomic_ofExcept_bind (.refl s) fun ab hab => ?_
    obtain ⟨a, b⟩ := ab
    obtain ⟨hpl, hrefs, hedges⟩ := rangeEndpoints_eq_ok hab
    obtain ⟨-, e, he, hread, hp, -⟩ := mutable_eq_ok.1 hm
    simp only
    refine atomic_ofExcept_bind (.refl s) fun charge _ => atomic_read_bind (.refl s) fun bytes hb => ?_
    obtain ⟨hb, hle⟩ := replacementBytes_eq_ok hb he
    refine wp_seq (replacementEdges_spec _ new) (fun _ _ h => h) ?_
    rintro n t ⟨hr, hn, hroom⟩
    refine exchange_spec (p := p) (c := fun _ => charge) (hi.reserved hr)
      (by rw [hr.at?]; exact he) hread hp (by rw [hr.bytes]; exact hb)
      (by rw [hr.limits]; exact hle) rfl hr ?_ (by rw [hr.edges]; exact hn)
      (by rw [hr.work]; omega)
    cases which with
    | start =>
        refine exchanges_plain hpl (plain_canonicalRange _ _) (fun k => ?_) ?_
        · rw [refs_canonicalRange, hrefs]
          simp only
          omega
        · rw [edges_canonicalRange, hedges]
          simp only
          omega
    | finish =>
        refine exchanges_plain hpl (plain_canonicalRange _ _) (fun k => ?_) ?_
        · rw [refs_canonicalRange, hrefs]
          simp only
          omega
        · rw [edges_canonicalRange, hedges]
          simp only
          omega

lemma setOtherRangeField_atomic (hi : Inv own held s) (h : Handle) (key : List Char)
    (new : Value) : Atomic own held (fun _ => 0) (setOtherRangeField h key new) s := by
  refine atomic_read_bind (.refl s) fun p hm => ?_
  split
  · split
    · split
      · next shape _ _ old hs =>
          refine replaceChild_atomic hi hm (exchanges_plain ⟨rfl, rfl⟩ ⟨rfl, rfl⟩ (fun k => ?_) ?_)
          · simp only [Payload.refs, Payload.children, hs, Option.toList_some, refsIn_append,
              refsIn_cons, refsIn_nil]
            omega
          · simp only [Payload.edges, Payload.children, hs, Option.toList_some, edgesIn_append,
              edgesIn_cons, edgesIn_nil]
            omega
      · exact atomic_fail (.refl s) _
    · split
      · next shape _ _ old hs =>
          refine replaceChild_atomic hi hm (exchanges_plain ⟨rfl, rfl⟩ ⟨rfl, rfl⟩ (fun k => ?_) ?_)
          · simp only [Payload.refs, Payload.children, hs, Option.toList_some, refsIn_append,
              refsIn_cons, refsIn_nil]
            omega
          · simp only [Payload.edges, Payload.children, hs, Option.toList_some, edgesIn_append,
              edgesIn_cons, edgesIn_nil]
            omega
      · exact atomic_fail (.refl s) _
    · exact atomic_fail (.refl s) _
  · exact atomic_fail (.refl s) _

/-! ## Growing strings -/

/-- A string owns nothing. -/
lemma exchanges_string (a b : Text) : Exchanges (.string a) (.string b) .unit .unit :=
  exchanges_plain ⟨rfl, rfl⟩ ⟨rfl, rfl⟩ (fun _ => rfl) rfl

section Strings

variable {a : Text} (hi : Inv own held s₀) (hw : s₀.work = []) (hr : Reserved s₀ s)
  (hm : s₀.mutable h = .ok (.string a))

include hi hw hr hm

lemma replaceText_atomic (b : Text) : AtomicFrom s₀ own held (fun _ => 0) (replaceText h b) s := by
  obtain ⟨-, e, he, hread, hp, -⟩ := mutable_eq_ok.1 hm
  have he' : s.at? h = some e := by
    rw [hr.at?]
    exact he
  refine atomic_read_bind hr fun bytes hb => atomic_get_bind ?_
  obtain ⟨hb, hle⟩ := replacementBytes_eq_ok hb he'
  exact rewrite_spec (c := fun _ => b.capacity) (hi.reserved hr) (by rw [hr.work, hw]) he' hread hp
    hb hle rfl (exchanges_string a b)

lemma setText_atomic (b : Text) :
    AtomicFrom s₀ own held (fun _ => 0) (setPayload h (.string b)) s := by
  obtain ⟨-, e, he, hread, hp, -⟩ := mutable_eq_ok.1 hm
  have he' : s.at? h = some e := by
    rw [hr.at?]
    exact he
  exact rewrite_spec (c := fun n => n) (b := s.bytes) (hi.reserved hr) (by rw [hr.work, hw]) he'
    hread hp rfl (hi.reserved hr).counts.bytes_le rfl (exchanges_string a b)

end Strings

lemma appendString_atomic (hi : Inv own held s) (hw : s.work = []) (target rhs : Value) :
    Atomic own held (fun _ => 0) (appendString target rhs) s := by
  cases target with
  | heap h =>
      refine atomic_read_bind (.refl s) fun p hm => ?_
      split
      · refine atomic_read_bind (.refl s) fun suffix _ => atomic_ofExcept_bind (.refl s) fun n _ => ?_
        refine atomic_ensureRoom_bind (.refl s) fun _ => ?_
        split_ifs
        · exact atomic_alloc_bind (.refl s) fun t hr => replaceText_atomic hi hw hr hm _
        · refine atomic_alloc_bind (.refl s) fun t hr => ?_
          split
          · exact setText_atomic hi hw hr hm _
          · exact atomic_fail hr _
      · exact atomic_fail (.refl s) _
  | _ => exact atomic_fail (.refl s) _

lemma pushChar_atomic (hi : Inv own held s) (hw : s.work = []) (v new : Value) :
    Atomic own held (fun _ => 0) (pushChar v new) s := by
  cases v with
  | heap h =>
      refine atomic_read_bind (.refl s) fun p hm => ?_
      split
      · split
        · refine atomic_ofExcept_bind (.refl s) fun n _ => atomic_ensureRoom_bind (.refl s) fun _ => ?_
          split_ifs
          · exact atomic_alloc_bind (.refl s) fun t hr => replaceText_atomic hi hw hr hm _
          · split
            · exact setText_atomic hi hw (.refl s) hm _
            · exact atomic_fail (.refl s) _
        · exact atomic_read_bind (.refl s) fun _ _ => atomic_fail (.refl s) _
      · exact atomic_fail (.refl s) _
  | _ => exact atomic_fail (.refl s) _

/-! ## Growing vectors and objects -/

lemma exchanges_pushed {tag : Ty} {values grown : Buf Value} {new : Value}
    (hg : grown.items = values.items ++ [new]) :
    Exchanges (.list tag values) (.list tag grown) .unit new := by
  refine exchanges_plain ⟨rfl, rfl⟩ ⟨rfl, rfl⟩ (fun k => ?_) ?_
  · change refsIn grown.items k + 0 = refsIn values.items k + new.refs k
    simp [hg]
  · change edgesIn grown.items + 0 = edgesIn values.items + new.heapEdge
    simp [hg]

lemma exchanges_inserted {tag : Ty} {fields grown : Buf (Text × Value)} {key : Text} {new : Value}
    (hg : grown.items = fields.items ++ [(key, new)]) :
    Exchanges (.record tag fields) (.record tag grown) .unit new := by
  refine exchanges_plain ⟨rfl, rfl⟩ ⟨rfl, rfl⟩ (fun k => ?_) ?_
  · change refsIn (grown.items.map Prod.snd) k + 0 = refsIn (fields.items.map Prod.snd) k + new.refs k
    simp [hg]
  · change edgesIn (grown.items.map Prod.snd) + 0 =
      edgesIn (fields.items.map Prod.snd) + new.heapEdge
    simp [hg]

lemma push_atomic (hi : Inv own held s) (hw : s.work = []) (v new : Value) :
    Atomic own held (fun _ => 0) (push v new) s := by
  cases v with
  | heap h =>
      refine atomic_read_bind (.refl s) fun tag _ => ?_
      split_ifs
      · exact pushChar_atomic hi hw _ new
      · refine atomic_read_bind (.refl s) fun p hm => ?_
        obtain ⟨-, e, he, hread, hp, -⟩ := mutable_eq_ok.1 hm
        split
        · refine atomic_get_bind (atomic_ofExcept_bind (.refl s) fun edges hn => ?_)
          have hn := checkedAdd_eq_some (okOr_eq_ok.1 hn)
          refine wp_seq (reserveWork_spec _ _) (fun _ _ h => h) ?_
          rintro - t ⟨hr, hroom⟩
          have hit := hi.reserved hr
          have hwt : t.work = [] := by rw [hr.work, hw]
          have het : t.at? h = some e := by rw [hr.at?]; exact he
          split
          · next grown hg =>
              refine attach_spec (b := t.bytes) (c := fun n => n) hit het hread hp rfl
                hit.counts.bytes_le rfl hr hwt (exchanges_pushed (Buf.pushWithin_eq_some hg).1)
                (by rw [hn, hr.edges]) (by rw [hr.work]; omega)
          · refine atomic_ofExcept_bind hr fun growth _ => atomic_read_bind hr fun _ _ => ?_
            refine atomic_alloc_bind hr fun u hu => ?_
            have hru := hr.trans hu
            refine atomic_ofExcept_bind hru fun charged _ => atomic_read_bind hru fun bytes hb => ?_
            obtain ⟨hb, hle⟩ := replacementBytes_eq_ok hb (by rw [hu.at?]; exact het)
            have hcap := hu.work_le
            exact attach_spec (c := fun _ => charged) (hit.reserved hu) (by rw [hu.at?]; exact het)
              hread hp hb hle rfl hru (by rw [hu.work, hwt]) (exchanges_pushed rfl)
              (by rw [hn, hru.edges]) (by rw [hru.work]; omega)
        · exact atomic_fail (.refl s) _
  | _ => exact atomic_fail (.refl s) _

lemma insertKey_atomic {tag : Ty} {fields : Buf (Text × Value)} (hi : Inv own held s)
    (hw : s.work = []) (hm : s.mutable h = .ok (.record tag fields)) (key : List Char)
    (new : Value) : Atomic own held (fun _ => 0) (insertKey h tag fields key new) s := by
  obtain ⟨-, e, he, hread, hp, -⟩ := mutable_eq_ok.1 hm
  refine atomic_ofExcept_bind (.refl s) fun keyBytes _ => ?_
  refine atomic_ofExcept_bind (.refl s) fun next _ => ?_
  refine atomic_ofExcept_bind (.refl s) fun planned _ => atomic_read_bind (.refl s) fun _ _ => ?_
  refine atomic_alloc_bind (.refl s) fun t ht => ?_
  have hrest : ∀ u, Reserved s u → AtomicFrom s own held (fun _ => 0) (do
      let charged ← ofExcept (fieldsCharge next keyBytes (utf8Len key))
      let bytes ← read (·.replacementBytes h charged)
      let s ← get
      let edges ← ofExcept (okOr (checkedAdd s.edges new.heapEdge) (err .overflow))
      reserveWork new.heapEdge 0
      guardWith (fields.items.length + 1 ≤ next) (.new .invalidCode "field capacity")
      retain new
      setCharged h (.record tag (.filled next (fields.items ++ [(.copy key, new)]))) charged bytes
        edges) u := by
    intro u hr
    refine atomic_ofExcept_bind hr fun charged _ => atomic_read_bind hr fun bytes hb => ?_
    obtain ⟨hb, hle⟩ := replacementBytes_eq_ok hb (by rw [hr.at?]; exact he)
    refine atomic_get_bind (atomic_ofExcept_bind hr fun edges hn => ?_)
    have hn := checkedAdd_eq_some (okOr_eq_ok.1 hn)
    refine wp_seq (reserveWork_spec _ _) (fun _ _ h => hr.trans h) ?_
    rintro - w ⟨hu, hroom⟩
    have hrw := hr.trans hu
    refine atomic_guard_bind hrw fun _ => ?_
    exact attach_spec (c := fun _ => charged) (hi.reserved hrw) (by rw [hrw.at?]; exact he)
      hread hp (by rw [hu.bytes]; exact hb) (by rw [hu.limits]; exact hle) rfl hrw
      (by rw [hrw.work, hw]) (exchanges_inserted rfl) (by rw [hn, hu.edges])
      (by rw [hu.work]; omega)
  simp only
  split_ifs
  · exact atomic_alloc_bind ht fun u hu => hrest u (ht.trans hu)
  · exact hrest t ht

lemma setKey_atomic (hi : Inv own held s) (hw : s.work = []) (v : Value) (key : RecordKey)
    (new : Value) : Atomic own held (fun _ => 0) (setKey v key new) s := by
  cases v with
  | heap h =>
      refine atomic_read_bind (.refl s) fun p hm => atomic_read_bind (.refl s) fun l _ => ?_
      split
      · split
        · split
          · next ho => exact replaceChild_atomic hi hm (exchanges_record ho new)
          · exact atomic_fail (.refl s) _
        · split_ifs
          · exact insertKey_atomic hi hw hm l new
          · exact atomic_read_bind (.refl s) fun _ _ => atomic_fail (.refl s) _
      · exact atomic_fail (.refl s) _
  | _ => exact atomic_fail (.refl s) _

end Store

end Rnx
