import Rnx.Store.CloneSafety

/-!
# Resizing

`vecResize` lends the buffer of its receiver to itself while values are released or cloned: the
entry stays behind moved and exclusive, so that nothing can reach the elements, and gets them back
whatever happened.  The clones appended before a failure stay.
-/

namespace Rnx

open ErrState

namespace Store

/-! ## Operations -/

/-- Give a native argument another position. -/
def renumber (arg : Nat) (e : Error) : Error :=
  match e.detail with
  | .numericArgumentNumber cause _ found => e.withDetail (.numericArgumentNumber cause arg found)
  | .numericArgumentCoerce cause _ value target =>
      e.withDetail (.numericArgumentCoerce cause arg value target)
  | _ => e

/-- A length argument. -/
def vecCapacityArgument (s : Store) (v : Value) : Except Error Nat :=
  match IntValue.of v with
  | none => do
      let found ← s.typeName v
      .error ((err .type).withDetail (.numericArgumentNumber .expectedNumber 0 found))
  | some int => okOr (usizeOf int.wide)
      ((err .integerCoercion).withDetail (.numericArgumentCoerce .integerCoercion 0 int .usize))

/-- Take the buffer of a vector out of its entry. -/
def resizeHold (parent : Handle) : M (Buf Value) := do
  let e ← read (·.entry parent)
  match e.payload with
  | .list .vec values => do
      update (·.modify parent.slot fun e =>
        { e with payload := .moved .vec, readers := exclusiveReaders })
      pure values
  | _ => fail (err .invalidCode)

/-- Put the buffer back. -/
def resizeRestore (parent : Handle) (values : Buf Value) : M Unit := do
  let _ ← read (·.entry parent)
  update (·.modify parent.slot fun e => { e with payload := .list .vec values, readers := 0 })

/-- Release what a shorter vector gives up, keeping the first failure. -/
def drain : List Value → Option Error → M (Option Error)
  | [], failure => pure failure
  | old :: vs, failure => do
      update fun s => { s with edges := s.edges - old.heapEdge }
      let r ← attempt (release old)
      drain vs (firstError failure r)

/-- Append `n` copies of a value that needs no clone. -/
def fillWithin (values : Buf Value) (fill : Value) : Nat → Option (Buf Value)
  | 0 => some values
  | n + 1 => (values.pushWithin fill).bind (fillWithin · fill n)

/-- Lengthen a vector by a value that needs no clone, reallocating at most once. -/
def resizeInline (parent : Handle) (newLen : Nat) (fill : Value) : M Unit := do
  guardWith (newLen ≤ isizeMax / sizeValue) ((err .allocation).withDetail .capacityOverflow)
  match ← read (·.mutable parent) with
  | .list tag values =>
      if newLen ≤ values.capacity then
        match fillWithin values fill (newLen - values.items.length) with
        | some values => setPayload parent (.list tag values)
        | none => fail (err .invalidCode)
      else do
        let planned ← ofExcept (okOr (checkedMul newLen sizeValue) (err .storeCapacity))
        let _ ← read (·.replacementBytes parent planned)
        alloc planned
        let bytes ← read (·.replacementBytes parent planned)
        match ← read (·.payload parent) with
        | .list _ values =>
            update fun s => { s.modify parent.slot fun e => { e with
                payload := .list .vec (.filled newLen
                  (values.items ++ List.replicate (newLen - values.items.length) fill))
                chargedBytes := planned } with bytes := bytes }
        | _ => fail (err .invalidCode)
  | _ => fail (err .invalidCode)

/-- Append clones of `fill`, one at a time, with the receiver lent while each is made. -/
def resizeClones (parent : Handle) (fill : Value) : Nat → M Unit
  | 0 => pure ()
  | n + 1 => do
      let values ← resizeHold parent
      let cloned ← attempt (cloneValue fill)
      resizeRestore parent values
      let cloned ← ofExcept cloned
      let pushed ← attempt (push (.heap parent) cloned)
      let released ← attempt (release cloned)
      ofExcept pushed
      ofExcept released
      resizeClones parent fill n

/-- Whether a fill value has to be cloned for every element. -/
def needsClone : Value → Bool
  | .heap _ | .function _ _ => true
  | _ => false

/-- Change the length of a vector. -/
def vecResize (receiver length fill : Value) : M Unit := do
  let tag ← read (·.tag receiver)
  if tag = .vec then do
    read (·.argument receiver 0 .write)
    match receiver with
    | .heap parent => do
        let newLen ← read fun s => (s.vecCapacityArgument length).mapError (renumber 1)
        let len ← read (·.len receiver)
        if newLen < len then do
          let values ← resizeHold parent
          let failure ← drain (values.items.drop newLen) none
          resizeRestore parent (values.truncate newLen)
          match failure with
          | none => pure ()
          | some e => fail e
        else if newLen = len then
          pure ()
        else if needsClone fill then
          resizeClones parent fill (newLen - len)
        else
          resizeInline parent newLen fill
    | _ => fail (err .invalidCode)
  else do
    let found ← read (·.typeName receiver)
    fail ((err .type).withDetail (.numericArgumentType .expectedType 0 .vec found))

/-! ## The loan -/

variable {s t : Store} {h parent : Handle} {e : Entry} {own : Handle → Nat} {values : Buf Value}

/-- The buffer of a vector nobody reads can be lent. -/
lemma Inv.hold (hi : Inv own none s) (hh : s.at? parent = some e) (hread : e.readers = 0)
    (hp : e.payload = .list .vec values) (hown : 1 ≤ own parent) :
    Inv (own + refsIn values.items) (some ⟨parent, edgesIn values.items⟩)
      (s.modify parent.slot fun e => { e with payload := .moved .vec, readers := exclusiveReaders })
    where
  counts := by
    have hstrong : 1 ≤ e.strong := hi.counts.alive _ _ hh
    refine hi.counts.rewrite (n := s.edges) (b := s.bytes) hh _ (fun k => ?_) hstrong ?_ rfl
      hi.counts.bytes_le hi.counts.room
    · rw [hp]
      change own k + refsIn values.items k + 0 + _ = own k + refsIn values.items k + _
      rfl
    · rw [hp]
      change s.edges + edgesIn values.items + 0 = s.edges + 0 + edgesIn values.items
      omega
  table := hi.table.of_same (sameTable_modify _ _ fun _ => ⟨rfl, rfl⟩)
  leases := by
    intro k x hx
    have hl := sum_modify (·.leases k) hh
      (fun e => { e with payload := .moved .vec, readers := exclusiveReaders })
    have hs := sum_modify (·.holds k) hh
      (fun e => { e with payload := .moved .vec, readers := exclusiveReaders })
    simp only [hp] at hl hs
    have z1 : (Payload.list .vec values).leases k = 0 := rfl
    have z2 : (Payload.moved .vec).leases k = 0 := rfl
    have z3 : (Payload.list .vec values).holds k = 0 := rfl
    have z4 : (Payload.moved .vec).holds k = 0 := rfl
    rw [z1, z2] at hl
    rw [z3, z4] at hs
    rw [Nat.add_right_cancel hl, Nat.add_right_cancel hs]
    rw [at?_modify hh] at hx
    split_ifs at hx with hk
    · subst hk
      obtain rfl := Option.some.inj hx
      have hself : heldAt (some ⟨k, edgesIn values.items⟩) k = 1 := if_pos rfl
      rcases hi.leases _ _ hh with ⟨a, b, -⟩ | ⟨-, -, c, -⟩
      · have a' : s.sum (·.holds k) + 0 = 0 := a
        exact .inr ⟨by omega, by omega, rfl, rfl⟩
      · rw [hread] at c
        cases c
    · have hother : heldAt (some ⟨parent, edgesIn values.items⟩) k = heldAt none k :=
        if_neg fun hk' => hk (Option.some.inj hk').symm
      rw [hother]
      exact hi.leases _ _ hx
  held_owned := by
    rintro d hd
    obtain rfl := Option.some.inj hd
    exact hown.trans (Nat.le_add_right _ _)

/-- The entry of a lent buffer. -/
lemma Inv.lent {n : Nat} (hi : Inv own (some ⟨parent, n⟩) s) :
    ∃ x, s.at? parent = some x ∧ x.readers = exclusiveReaders ∧ x.payload = .moved .vec ∧
      s.sum (·.leases parent) = 0 ∧ s.sum (·.holds parent) = 0 := by
  have hown : 1 ≤ own parent := hi.held_owned _ rfl
  have hself : heldAt (some ⟨parent, n⟩) parent = 1 := if_pos rfl
  obtain ⟨x, hx⟩ := hi.counts.live_of_own hown
  rcases hi.leases _ _ hx with ⟨a, -, -⟩ | ⟨a, b, c, d⟩
  · omega
  · exact ⟨x, hx, c, d, b, by omega⟩

/-- A lent buffer goes back, whatever is left in it. -/
lemma Inv.unhold (hi : Inv (own + refsIn values.items) (some ⟨parent, edgesIn values.items⟩) s) :
    Inv own none (s.modify parent.slot fun e =>
      { e with payload := .list .vec values, readers := 0 }) := by
  obtain ⟨x, hx, hread, hp, hl0, hh0⟩ := hi.lent
  refine ⟨?_, hi.table.of_same (sameTable_modify _ _ fun _ => ⟨rfl, rfl⟩), fun k y hy => ?_,
    fun d hd => by cases hd⟩
  · have hstrong : 1 ≤ x.strong := hi.counts.alive _ _ hx
    refine hi.counts.rewrite (n := s.edges) (b := s.bytes) hx _ (fun k => ?_) hstrong ?_ rfl
      hi.counts.bytes_le hi.counts.room
    · rw [hp]
      change own k + refsIn values.items k + _ = own k + refsIn values.items k + 0 + _
      rfl
    · rw [hp]
      change s.edges + 0 + edgesIn values.items = s.edges + edgesIn values.items + 0
      omega
  · have hl := sum_modify (·.leases k) hx
      (fun e => { e with payload := .list .vec values, readers := 0 })
    have hs := sum_modify (·.holds k) hx
      (fun e => { e with payload := .list .vec values, readers := 0 })
    simp only [hp] at hl hs
    have z1 : (Payload.list .vec values).leases k = 0 := rfl
    have z2 : (Payload.moved .vec).leases k = 0 := rfl
    have z3 : (Payload.list .vec values).holds k = 0 := rfl
    have z4 : (Payload.moved .vec).holds k = 0 := rfl
    rw [z1, z2] at hl
    rw [z3, z4] at hs
    rw [Nat.add_right_cancel hl, Nat.add_right_cancel hs]
    rw [at?_modify hx] at hy
    split_ifs at hy with hk
    · subst hk
      obtain rfl := Option.some.inj hy
      exact .inl ⟨hh0, hl0.symm, by rw [hl0]; decide⟩
    · have hother : heldAt (some ⟨parent, edgesIn values.items⟩) k = heldAt none k :=
        if_neg fun hk' => hk (Option.some.inj hk').symm
      rw [← hother]
      exact hi.leases _ _ hy

lemma resizeHold_spec (hi : Inv own none s) (hw : s.work = [])
    (hm : s.mutable parent = .ok (.list .vec values)) (hown : 1 ≤ own parent) :
    wp (resizeHold parent)
      (fun b t => b = values ∧ t.work = [] ∧
        Inv (own + refsIn values.items) (some ⟨parent, edgesIn values.items⟩) t)
      (fun _ _ => False) s := by
  obtain ⟨hop, e, he, hread, hp, -⟩ := mutable_eq_ok.1 hm
  have hent : s.entry parent = .ok e := entry_eq_ok.2 ⟨hop, he⟩
  refine wp_read_bind (fun x hx => ?_) fun x hx => ?_
  · rw [hent] at hx
    cases hx
  · obtain rfl := Except.ok.inj (hent.symm.trans hx)
    rw [hp]
    exact ⟨rfl, hw, hi.hold he hread hp hown⟩

lemma resizeRestore_spec (hw : s.work = [])
    (hi : Inv (own + refsIn values.items) (some ⟨parent, edgesIn values.items⟩) s) :
    wp (resizeRestore parent values)
      (fun _ t => Inv own none t ∧ t.work = [] ∧ t.mutable parent = .ok (.list .vec values))
      (fun _ _ => False) s := by
  obtain ⟨x, hx, -⟩ := hi.lent
  have hent : s.entry parent = .ok x := entry_eq_ok.2 ⟨hi.table.isOpen, hx⟩
  refine wp_read_bind (fun y hy => ?_) fun _ _ => ⟨hi.unhold, hw, ?_⟩
  · rw [hent] at hy
    cases hy
  · exact mutable_eq_ok.2 ⟨hi.table.isOpen, _, at?_modify_self hx _, rfl, rfl, rfl⟩

/-! ## The branches -/

/-- The drained elements are released and their edges given up; the kept ones stay lent. -/
lemma drain_spec {kept vs : List Value}
    (hi : Inv (own + refsIn kept + refsIn vs) (some ⟨parent, edgesIn kept + edgesIn vs⟩) s)
    (hw : s.work = []) (hown : 1 ≤ own parent) :
    wp (drain vs none)
      (fun r t => r = none ∧ t.work = [] ∧
        Inv (own + refsIn kept) (some ⟨parent, edgesIn kept⟩) t)
      (fun _ _ => False) s := by
  induction vs generalizing s with
  | nil =>
      have h0 : refsIn [] = 0 := rfl
      rw [h0, add_zero] at hi
      exact ⟨rfl, hw, hi⟩
  | cons v vs ih =>
      refine wp_update_bind.2 ?_
      have hc := hi.counts
      have hedges : s.edges = s.sum Payload.edges + (edgesIn kept + edgesIn (v :: vs)) := hc.edges
      rw [edgesIn_cons] at hedges
      have hsplit : own + refsIn kept + refsIn (v :: vs) =
          own + refsIn kept + refsIn vs + v.refs := by
        funext k
        simp only [Pi.add_apply, refsIn_cons]
        omega
      have hroom := hc.room
      have hlent : Inv (own + refsIn kept + refsIn vs + v.refs)
          (some ⟨parent, edgesIn kept + edgesIn vs⟩) { s with edges := s.edges - v.heapEdge } := by
        rw [← hsplit]
        refine ⟨⟨hc.balance, hc.alive, ?_, hc.bytes, hc.bytes_le, hc.live, hc.queued, ?_⟩, ?_,
          hi.leases, ?_⟩
        · change s.edges - v.heapEdge = s.sum Payload.edges + (edgesIn kept + edgesIn vs)
          omega
        · change s.edges - v.heapEdge + s.work.length + 1 ≤ s.workCap
          omega
        · exact hi.table.of_same
            { closed := rfl, limits := rfl, first := rfl, last := rfl, free := rfl
              freeCap := Nat.le_refl _, length := rfl, generation := fun _ => rfl
              links := fun _ => rfl }
        · rintro d hd
          obtain rfl := Option.some.inj hd
          exact hi.held_owned ⟨parent, edgesIn kept + edgesIn (v :: vs)⟩ rfl
      refine wp_bind.2 (wp_attempt.2 (wp_mono (release_spec hlent ?_) ?_ fun _ _ h => h.elim))
      · rintro d hd
        obtain rfl := Option.some.inj hd
        simp only [Pi.add_apply]
        omega
      · rintro ⟨⟩ t ⟨hit, hwt⟩
        exact ih hit hwt

lemma fillWithin_eq_some {b : Buf Value} {fill : Value} {n : Nat}
    (hb : fillWithin values fill n = some b) :
    b.items = values.items ++ List.replicate n fill := by
  induction n generalizing values with
  | zero =>
      obtain rfl := Option.some.inj hb
      simp
  | succ n ih =>
      obtain ⟨c, hc, hb⟩ := Option.bind_eq_some_iff.1 hb
      rw [ih hb, (Buf.pushWithin_eq_some hc).1, List.append_assoc, List.replicate_succ]
      rfl

/-- More elements that are not handles are no change of ownership. -/
lemma exchanges_filled {b : Buf Value} {fill : Value} {n : Nat} (hf : fill.isHeap = false)
    (hb : b.items = values.items ++ List.replicate n fill) :
    Exchanges (.list .vec values) (.list .vec b) .unit .unit := by
  have hrefs : ∀ n k, refsIn (List.replicate n fill) k = 0 := fun n k => by
    simp [refsIn, Value.refs_of_not_heap hf]
  have hedges : edgesIn (List.replicate n fill) = 0 := by
    simp [edgesIn, Value.heapEdge_of_not_heap hf]
  refine exchanges_plain ⟨rfl, rfl⟩ ⟨rfl, rfl⟩ (fun k => ?_) ?_
  · change refsIn b.items k + 0 = refsIn values.items k + 0
    rw [hb, refsIn_append, hrefs]
  · change edgesIn b.items + 0 = edgesIn values.items + 0
    rw [hb, edgesIn_append, hedges]

lemma resizeInline_atomic (hi : Inv own none s) (hw : s.work = [])
    (hm : s.mutable parent = .ok (.list .vec values)) (newLen : Nat) {fill : Value}
    (hf : fill.isHeap = false) :
    Atomic own none (fun _ => 0) (resizeInline parent newLen fill) s := by
  obtain ⟨hop, e, he, hread, hp, -⟩ := mutable_eq_ok.1 hm
  refine atomic_guard_bind (.refl s) fun _ => atomic_read_bind (.refl s) fun p hm' => ?_
  obtain rfl := Except.ok.inj (hm.symm.trans hm')
  simp only
  split_ifs
  · split
    · next b hb =>
      exact rewrite_spec (b := s.bytes) (c := fun n => n) hi hw he hread hp rfl hi.counts.bytes_le
        rfl (exchanges_filled hf (fillWithin_eq_some hb))
    · exact atomic_fail (.refl s) _
  · refine atomic_ofExcept_bind (.refl s) fun planned _ => atomic_read_bind (.refl s) fun _ _ => ?_
    refine atomic_alloc_bind (.refl s) fun t ht => atomic_read_bind ht fun bytes hb => ?_
    have het : t.at? parent = some e := by
      rw [ht.at?]
      exact he
    obtain ⟨hb, hle⟩ := replacementBytes_eq_ok hb het
    refine atomic_read_bind ht fun q hq => ?_
    obtain ⟨-, e', he', rfl, -⟩ := payload_eq_ok.1 hq
    obtain rfl := Option.some.inj (het.symm.trans he')
    rw [hp]
    exact rewrite_spec (c := fun _ => planned) (hi.reserved ht) (by rw [ht.work, hw]) het hread hp
      hb hle rfl (exchanges_filled hf rfl)

lemma restores_exclusive {p : Payload} (hp : p.restores = some (h, values)) :
    p.exclusive = some h := by
  cases p with
  | sortGuard st =>
      simp only [Payload.restores] at hp
      split_ifs at hp with ha
      simp only [Option.some.injEq, Prod.mk.injEq] at hp
      simp [Payload.exclusive, ha, hp.1]
  | _ => cases hp

/-- A vector that may be written and is owned outside stays so through a cascade. -/
lemma writable_follows {held : Option Hold} {p : Payload} (hown : 1 ≤ own parent) :
    Follows own held (fun _ u => ∃ e, u.at? parent = some e ∧ e.readers = 0 ∧ e.payload = p) where
  pop := fun _ _ _ h => h
  step := by
    rintro h u t hu hit hstep ⟨x, hx, hread, hp⟩
    cases hstep with
    | lowered e he _ ht =>
        subst ht
        rw [at?_modify he]
        split_ifs with hk
        · subst hk
          obtain rfl := Option.some.inj (he.symm.trans hx)
          exact ⟨_, rfl, hread, hp⟩
        · exact ⟨x, hx, hread, hp⟩
    | freed e he _ gone others sums =>
        have hne : parent ≠ h := by
          rintro rfl
          obtain ⟨y, hy⟩ := hit.counts.live_of_own hown
          rw [gone] at hy
          cases hy
        have hfree : ∀ k values, e.payload.restores = some (k, values) → k ≠ parent := by
          intro k values hres hk
          have hone : e.payload.holds parent = 1 := by
            simp [Payload.holds, restores_exclusive hres, hk]
          have := le_sum (·.holds parent) he
          rcases hu.leases _ _ hx with ⟨a, -, -⟩ | ⟨-, -, c, -⟩
          · omega
          · rw [hread] at c
            cases c
        refine ⟨survivor e parent x, by rw [others parent hne, hx]; rfl, ?_, ?_⟩
        · change (if e.payload.exclusive = some parent then 0 else x.readers - _) = 0
          rw [hread, Nat.zero_sub, ite_self]
        · simp only [survivor, settle]
          split
          · next k values hres => rw [if_neg (hfree k values hres)]; exact hp
          · exact hp

/-- A push keeps its vector writable. -/
lemma push_writable (hm : s.mutable parent = .ok (.list .vec values)) (new : Value) :
    wp (push (.heap parent) new) (fun _ t => ∃ b, t.mutable parent = .ok (.list .vec b))
      (fun _ _ => True) s := by
  obtain ⟨hop, e, he, hread, hp, -⟩ := mutable_eq_ok.1 hm
  refine wp_read_bind (fun _ _ => trivial) fun tag htag => ?_
  have hent : s.entry parent = .ok e := entry_eq_ok.2 ⟨hop, he⟩
  have hvec : tag = .vec := by
    simp only [Store.tag, hent, Except.map, hp] at htag
    exact (Except.ok.inj htag).symm
  rw [if_neg (by rw [hvec]; decide)]
  refine wp_read_bind (fun _ _ => trivial) fun p hm' => ?_
  obtain rfl := Except.ok.inj (hm.symm.trans hm')
  refine wp_get_bind.2 (wp_ofExcept_bind (fun _ _ => trivial) fun edges _ => ?_)
  refine wp_seq (reserveWork_spec _ _) (fun _ _ _ => trivial) ?_
  rintro ⟨⟩ t ⟨hr, -⟩
  -- Whatever the last step rewrites, it leaves a vector without readers.
  have hlast : ∀ (u : Store) (upd : Store → Store) (b : Buf Value), Reserved s u →
      (∀ w, ∃ c n m, upd w = w.exchanged parent (.list .vec b) c n m) →
      wp (do retain new; update upd) (fun _ t => ∃ b, t.mutable parent = .ok (.list .vec b))
        (fun _ _ => True) u := by
    intro u upd b hu hupd
    have hspec := retain_spec (s := u) new 0
    rw [bump_zero, zero_add] at hspec
    refine wp_seq hspec (fun _ _ _ => trivial) ?_
    rintro ⟨⟩ _ ⟨rfl, -⟩
    have hat : (u.bump new.refs).at? parent = some { e with strong := e.strong + new.refs parent } := by
      rw [at?_bump, hu.at?, he]
      rfl
    obtain ⟨c, n, m, hupd⟩ := hupd (u.bump new.refs)
    refine (wp_update _).2 ⟨b, ?_⟩
    rw [hupd]
    exact mutable_eq_ok.2 ⟨hu.closed.trans hop, _, at?_modify_self hat _, hread, rfl, rfl⟩
  split
  · exact hlast t _ _ hr fun w => ⟨fun n => n, _, w.bytes, rfl⟩
  · refine wp_ofExcept_bind (fun _ _ => trivial) fun growth _ => ?_
    refine wp_read_bind (fun _ _ => trivial) fun _ _ => ?_
    refine wp_seq (alloc_spec _) (fun _ _ _ => trivial) ?_
    rintro ⟨⟩ _ ⟨a, rfl⟩
    refine wp_ofExcept_bind (fun _ _ => trivial) fun charged _ => ?_
    refine wp_read_bind (fun _ _ => trivial) fun bytes _ => ?_
    exact hlast _ _ _ (hr.trans (.spent a)) fun w => ⟨fun _ => charged, _, bytes, rfl⟩

/-- Elements are cloned and appended until one of them fails; those before it stay. -/
lemma resizeClones_keeps (hi : Inv own none s) (hw : s.work = [])
    (hm : s.mutable parent = .ok (.list .vec values)) (hown : 1 ≤ own parent) (fill : Value)
    (n : Nat) : Keeps own none (fun _ => 0) (resizeClones parent fill n) s := by
  induction n generalizing s values with
  | zero => exact ⟨by simpa using hi, hw⟩
  | succ n ih =>
      refine wp_seq (resizeHold_spec hi hw hm hown) (fun _ _ h => h.elim) ?_
      rintro buf t ⟨rfl, hwt, hit⟩
      -- The buffer goes back whether or not the clone was made.
      have hback : ∀ (cloned : Except Error Value) (give : Handle → Nat) (u : Store),
          (∀ v, cloned = .ok v → give = v.refs) → (∀ x, cloned = .error x → give = 0) →
          Inv (own + give + refsIn buf.items) (some ⟨parent, edgesIn buf.items⟩) u →
          u.work = [] → Keeps own none (fun _ => 0) (do
            resizeRestore parent buf
            let cloned ← ofExcept cloned
            let pushed ← attempt (push (.heap parent) cloned)
            let released ← attempt (release cloned)
            ofExcept pushed
            ofExcept released
            resizeClones parent fill n) u := by
        intro cloned give u hok herr hiu hwu
        refine wp_seq (resizeRestore_spec hwu hiu) (fun _ _ h => h.elim) ?_
        rintro ⟨⟩ v ⟨hiv, hwv, hmv⟩
        refine wp_ofExcept_bind (fun x hx => ?_) fun r hr => ?_
        · rw [herr x hx, add_zero] at hiv
          exact ⟨hiv, hwv⟩
        rw [hok r hr] at hiv
        refine wp_bind.2 (wp_attempt.2 ?_)
        refine wp_mono (wp_and (push_atomic hiv hwv (.heap parent) r) (push_writable hmv r)) ?_ ?_
        · rintro ⟨⟩ w ⟨⟨hiw, hww⟩, b, hmw⟩
          rw [add_zero] at hiw
          obtain ⟨hop, e, he, hread, hp, -⟩ := mutable_eq_ok.1 hmw
          refine wp_bind.2 (wp_attempt.2 (wp_mono (release_follows (writable_follows hown) hiw
            (fun d hd => by cases hd) ⟨e, he, hread, hp⟩) ?_ fun _ _ h => h.elim))
          rintro ⟨⟩ z ⟨hiz, hwz, e', he', hread', hp'⟩
          refine wp_ofExcept_bind (fun _ h => by cases h) fun _ _ => ?_
          refine wp_ofExcept_bind (fun _ h => by cases h) fun _ _ => ?_
          exact ih hiz hwz (mutable_eq_ok.2 ⟨hiz.table.isOpen, e', he', hread', hp', rfl⟩)
        · rintro x w ⟨hr, -⟩
          refine wp_bind.2 (wp_attempt.2 (wp_mono (release_spec (hiv.reserved hr)
            fun d hd => by cases hd) ?_ fun _ _ h => h.elim))
          rintro ⟨⟩ z hz
          exact wp_ofExcept_bind (fun _ _ => hz) fun _ h => by cases h
      refine wp_bind.2 (wp_attempt.2 (wp_mono (cloneValue_undoes hit hwt fill) ?_ ?_))
      · rintro r u ⟨hiu, hwu⟩
        refine hback (.ok r) r.refs u (fun _ h => ?_) (fun _ h => ?_) ?_ hwu
        · rw [Except.ok.inj h]
        · cases h
        · rw [add_right_comm]
          exact hiu
      · rintro x u ⟨hiu, hru⟩
        refine hback (.error x) 0 u (fun _ h => ?_) (fun _ _ => rfl) ?_ (hru.work.trans hwt)
        · cases h
        · rw [add_zero]
          exact hiu

lemma resizeHold_refuses {Q : Buf Value → Store → Prop} {p : Payload}
    (hm : s.mutable parent = .ok p) (hp : ∀ values, p ≠ .list .vec values) :
    wp (resizeHold parent) Q (fun _ t => t = s) s := by
  obtain ⟨hop, e, he, -, rfl, -⟩ := mutable_eq_ok.1 hm
  refine wp_read_bind (fun _ _ => rfl) fun x hx => ?_
  obtain rfl := Except.ok.inj ((entry_eq_ok.2 ⟨hop, he⟩).symm.trans hx)
  split
  · next values heq => exact absurd heq (hp values)
  · rfl

lemma resizeInline_refuses {Q : Unit → Store → Prop} {p : Payload} {newLen : Nat} {fill : Value}
    (hm : s.mutable parent = .ok p) (hp : ∀ tag values, p ≠ .list tag values) :
    wp (resizeInline parent newLen fill) Q (fun _ t => t = s) s := by
  refine wp_guardWith_bind (fun _ => rfl) fun _ => wp_read_bind (fun _ _ => rfl) fun q hq => ?_
  obtain rfl := Except.ok.inj (hm.symm.trans hq)
  split
  · next tag values => exact absurd rfl (hp tag values)
  · rfl

lemma resizeClones_refuses {p : Payload} {fill : Value} {n : Nat} {Q : Unit → Store → Prop}
    (hm : s.mutable parent = .ok p) (hp : ∀ values, p ≠ .list .vec values) (hn : n ≠ 0) :
    wp (resizeClones parent fill n) Q (fun _ t => t = s) s := by
  obtain ⟨m, rfl⟩ := Nat.exists_eq_succ_of_ne_zero hn
  exact wp_bind.2 (resizeHold_refuses hm hp)

/-- A resize keeps the invariant, whatever part of it was done. -/
lemma vecResize_keeps (hi : Inv own none s) (hw : s.work = []) (receiver length fill : Value)
    (hown : ∀ h, receiver = .heap h → 1 ≤ own h) :
    Keeps own none (fun _ => 0) (vecResize receiver length fill) s := by
  have hself : Inv own none s ∧ s.work = [] := ⟨hi, hw⟩
  have hdone : Inv (own + 0) none s ∧ s.work = [] := ⟨by simpa using hi, hw⟩
  refine wp_read_bind (fun _ _ => hself) fun tag htag => ?_
  by_cases hvec : tag = .vec
  · rw [if_pos hvec]
    refine wp_read_bind (fun _ _ => hself) fun _ ha => ?_
    cases receiver with
    | heap parent =>
        have hown := hown parent rfl
        obtain ⟨p, hm⟩ := argument_write ha
        refine wp_read_bind (fun _ _ => hself) fun newLen _ => ?_
        refine wp_read_bind (fun _ _ => hself) fun len _ => ?_
        by_cases hlist : ∀ values, p ≠ .list .vec values
        · -- No payload of another shape has the tag of a vector; each branch refuses it anyway.
          split_ifs with hlt heq hclone
          · exact wp_bind.2 (wp_mono (resizeHold_refuses hm hlist) (fun _ _ h => h)
              fun _ _ h => h ▸ hself)
          · exact hdone
          · exact wp_mono (resizeClones_refuses hm hlist (by omega)) (fun _ _ h => h)
              fun _ _ h => h ▸ hself
          · refine wp_mono (resizeInline_refuses hm fun t values hp => ?_) (fun _ _ h => h)
              fun _ _ h => h ▸ hself
            obtain ⟨hop, e, he, -, rfl, -⟩ := mutable_eq_ok.1 hm
            simp only [Store.tag, entry_eq_ok.2 ⟨hop, he⟩, Except.map] at htag
            have hpt : e.payload.tag = .vec := (Except.ok.inj htag).trans hvec
            rw [hp] at hpt
            obtain rfl : t = .vec := hpt
            exact hlist values hp
        simp only [ne_eq, not_forall, not_not] at hlist
        obtain ⟨values, rfl⟩ := hlist
        split_ifs with hlt heq hclone
        · refine wp_seq (resizeHold_spec hi hw hm hown) (fun _ _ h => h.elim) ?_
          rintro buf t ⟨rfl, hwt, hit⟩
          have hparts := List.take_append_drop newLen buf.items
          have hrefs : own + refsIn buf.items = own + refsIn (buf.items.take newLen) +
              refsIn (buf.items.drop newLen) := by
            funext k
            have := congrArg (refsIn · k) hparts
            simp only [refsIn_append] at this
            simp only [Pi.add_apply]
            omega
          have hedges : edgesIn buf.items = edgesIn (buf.items.take newLen) +
              edgesIn (buf.items.drop newLen) := by
            rw [← edgesIn_append, hparts]
          rw [hrefs, hedges] at hit
          refine wp_seq (drain_spec hit hwt hown) (fun _ _ h => h.elim) ?_
          rintro _ u ⟨rfl, hwu, hiu⟩
          have hkept : Inv (own + refsIn (buf.truncate newLen).items)
              (some ⟨parent, edgesIn (buf.truncate newLen).items⟩) u := hiu
          refine wp_seq (resizeRestore_spec hwu hkept) (fun _ _ h => h.elim) ?_
          rintro ⟨⟩ v ⟨hiv, hwv, -⟩
          exact ⟨by simpa using hiv, hwv⟩
        · exact hdone
        · exact resizeClones_keeps hi hw hm hown fill _
        · exact Atomic.keeps (resizeInline_atomic hi hw hm newLen (by
            cases fill <;> first | rfl | exact absurd rfl hclone)) hi hw
    | _ => exact hself
  · rw [if_neg hvec]
    exact wp_read_bind (fun _ _ => hself) fun _ _ => hself

end Store

end Rnx
