import Rnx.Store.Iteration

/-!
# Iterators keep the invariant

One lemma for each operation of the iterators.  A lease is taken with the admission of the
iterator that holds it or right after it, an exhausted split gives its lease up before its
reference, and the pair an object iterator yields is undone when its key cannot be released.
-/

namespace Rnx

open ErrState

namespace Store

variable {s t u : Store} {h k iter source : Handle} {e : Entry} {own : Handle → Nat}
  {held : Option Hold} {p q : Payload}

/-- The references of an optional result. -/
def optionRefs (r : Option Value) : Handle → Nat := r.elim 0 Value.refs

@[simp] lemma optionRefs_none : optionRefs none = 0 := rfl

@[simp] lemma optionRefs_some (v : Value) : optionRefs (some v) = v.refs := rfl

lemma optionRefs_scalar {v : Value} (hv : v.isHeap = false) : optionRefs (some v) = 0 :=
  refs_eq_zero_of_scalar hv

/-! ## Admission of iterators -/

/-- An iterator that leases nothing, or takes its lease on admission. -/
lemma iterator_admit {s₀ : Store} (hi : Inv own held s₀) (hw : s₀.work = []) (hr : Reserved s₀ s)
    (hp : (∃ iter, p = .vectorIterator iter) ∨ p.Plain) :
    AtomicFrom s₀ own held Value.refs (admitPayload p) s := by
  refine wp_mono (admit_inv (hi.reserved hr) (hp.imp_right fun h => ⟨h.lease, h.exclusive⟩)) ?_
    fun _ _ h => hr.trans h
  rintro _ t ⟨h, rfl, ha, hit⟩
  exact ⟨hit, by rw [ha.fields.1, hr.work, hw]⟩

lemma otherRangeIterator_atomic (hi : Inv own held s) (hw : s.work = []) (shape : RangeShape) :
    Atomic own held Value.refs (otherRangeIterator shape) s := by
  refine atomic_read_bind (.refl s) fun cursor _ => atomic_boxed_bind (.refl s) fun t ht => ?_
  exact iterator_admit hi hw ht (.inr ⟨rfl, rfl⟩)

lemma iterator_atomic (hi : Inv own held s) (hw : s.work = []) (v : Value) :
    Atomic own held Value.refs (iterator v) s := by
  cases v with
  | unit => exact iterator_admit hi hw (.refl s) (.inr ⟨rfl, rfl⟩)
  | heap h =>
      refine atomic_read_bind (.refl s) fun e _ => ?_
      split_ifs
      · exact retained_atomic hi hw _
      · refine atomic_read_bind (.refl s) fun p _ => ?_
        split
        · exact iterator_admit hi hw (.refl s) (.inr ⟨rfl, rfl⟩)
        · exact atomic_read_bind (.refl s) fun _ _ =>
            iterator_admit hi hw (.refl s) (.inr ⟨rfl, rfl⟩)
        · exact iterator_admit hi hw (.refl s) (.inr ⟨rfl, rfl⟩)
        · exact otherRangeIterator_atomic hi hw _
        · exact iterator_admit hi hw (.refl s) (.inl ⟨_, rfl⟩)
  | _ => exact atomic_fail (.refl s) _

/-! ## Boxed iterators -/

/-- The reader count a boxed iterator's source ends with. -/
def Settles (p : Payload) (source : Handle) (readers : Option Nat) (s : Store) : Prop :=
  p.exclusive = none ∧ (p.lease = none ∧ readers = none ∨
    p.lease = some source ∧ ∃ e, s.at? source = some e ∧ readers = some (e.readers + 1) ∧
      e.readers + 1 < exclusiveReaders)

lemma LeaseOk.of_readers {x y : Entry} {leases holds : Nat} (hok : LeaseOk y leases holds)
    (hpay : x.payload = y.payload) (hr : x.readers = y.readers) : LeaseOk x leases holds := by
  unfold LeaseOk
  rwa [hpay, hr]

/-- One more lease on an entry that can take one more reader. -/
lemma LeaseOk.leased {x y : Entry} {leases holds : Nat} (hok : LeaseOk y leases holds)
    (hr : x.readers = y.readers + 1) (hlt : y.readers + 1 < exclusiveReaders) :
    LeaseOk x (leases + 1) holds := by
  rcases hok with ⟨hholds, hreaders, -⟩ | ⟨-, -, hreaders, -⟩
  · exact .inl ⟨hholds, by rw [hr, hreaders], by rwa [← hreaders]⟩
  · omega

lemma LeaseOk.returned {x y : Entry} {leases holds : Nat} (hok : LeaseOk y (leases + 1) holds)
    (hr : x.readers = y.readers - 1) : LeaseOk x leases holds := by
  rcases hok with ⟨hholds, hreaders, hlt⟩ | ⟨-, hnone, -, -⟩
  · exact .inl ⟨hholds, by rw [hr, hreaders, Nat.add_sub_cancel], Nat.lt_of_succ_lt hlt⟩
  · cases hnone

/-- A boxed iterator with its charge and its lease settled. -/
lemma Admission.settled {extra charge : Nat} {readers : Option Nat} (hi : Inv own held s)
    (ha : Admission p s t iter) (hc : Counts (own + (Value.heap iter).refs) (heldEdges held) t)
    (ht : Table t) (hp : Settles p source readers s) (hlive : (s.at? source).isSome = true)
    (hbase : p.bytes = .ok sizeBoxedState) (hcharge : charge = sizeBoxedState + extra)
    (hroom : t.bytes + extra ≤ t.limits.bytes) :
    Inv (own + (Value.heap iter).refs) held { t.modifyTwo iter source
      (fun e => { e with chargedBytes := charge })
      (fun e => { e with readers := readers.getD e.readers }) with bytes := t.bytes + extra } := by
  obtain ⟨charged, hb, hnew⟩ := ha.lookup_new hi.table
  obtain rfl : charged = sizeBoxedState := Except.ok.inj (hb.symm.trans hbase)
  obtain ⟨e, he⟩ := Option.isSome_iff_exists.1 hlive
  have hne : iter ≠ source := by
    rintro rfl
    have := ha.fresh
    rw [he] at this
    cases this
  have hv : ∀ it, p ≠ .vectorIterator it := by
    rintro it rfl
    cases hbase
  obtain ⟨a, i, -, hx⟩ := ha.lookup_old hi.table hne.symm
  rw [he] at hx
  have hx1 : (t.modify iter.slot fun e => { e with chargedBytes := charge }).at? source =
      some (grown p a i s.last source e) := by
    rw [at?_modify_of_ne hnew hne.symm]
    exact hx
  have h1 : Counts (own + (Value.heap iter).refs) (heldEdges held)
      { t.modify iter.slot fun e => { e with chargedBytes := charge } with
        edges := t.edges, bytes := t.bytes + extra } :=
    hc.rewrite (n := t.edges) hnew (fun e => { e with chargedBytes := charge }) (fun _ => rfl)
      (Nat.le_refl 1) rfl (by
        change t.bytes + extra + sizeBoxedState = t.bytes + charge
        omega) hroom hc.room
  have hstrong : 1 ≤ (grown p a i s.last source e).strong := hc.alive _ _ hx
  have h2 := h1.rewrite (n := t.edges) (b := t.bytes + extra) hx1
    (fun e => { e with readers := readers.getD e.readers }) (fun _ => rfl) hstrong rfl rfl hroom
    hc.room
  refine ⟨h2, ?_, fun k y hy => ?_, fun d hd => (hi.held_owned d hd).trans (Nat.le_add_right _ _)⟩
  · refine (ht.of_same (sameTable_modifyTwo t iter source
      (f := fun e => { e with chargedBytes := charge })
      (g := fun e => { e with readers := readers.getD e.readers })
      (fun _ => ⟨rfl, rfl⟩) fun _ => ⟨rfl, rfl⟩)).of_same ?_
    exact ⟨rfl, rfl, rfl, rfl, rfl, Nat.le_refl _, rfl, fun _ => rfl, fun _ => rfl⟩
  · have hls := sum_modifyTwo (f := fun e => { e with chargedBytes := charge })
      (g := fun e => { e with readers := readers.getD e.readers }) hnew hx hne (·.leases k)
    have hhs := sum_modifyTwo (f := fun e => { e with chargedBytes := charge })
      (g := fun e => { e with readers := readers.getD e.readers }) hnew hx hne (·.holds k)
    have hls' : (t.modifyTwo iter source (fun e => { e with chargedBytes := charge })
        (fun e => { e with readers := readers.getD e.readers })).sum (·.leases k) =
        t.sum (·.leases k) := Nat.add_right_cancel (Nat.add_right_cancel hls)
    have hhs' : (t.modifyTwo iter source (fun e => { e with chargedBytes := charge })
        (fun e => { e with readers := readers.getD e.readers })).sum (·.holds k) =
        t.sum (·.holds k) := Nat.add_right_cancel (Nat.add_right_cancel hhs)
    have hholds : t.sum (·.holds k) = s.sum (·.holds k) := by
      have hzero : p.holds k = 0 := by simp [Payload.holds, hp.1]
      rw [ha.sum hi.table (·.holds k), hzero, Nat.add_zero]
    change LeaseOk y ((t.modifyTwo iter source (fun e => { e with chargedBytes := charge })
        (fun e => { e with readers := readers.getD e.readers })).sum (·.leases k))
      ((t.modifyTwo iter source (fun e => { e with chargedBytes := charge })
        (fun e => { e with readers := readers.getD e.readers })).sum (·.holds k) + heldAt held k)
    rw [hls', hhs']
    change (t.modifyTwo iter source (fun e => { e with chargedBytes := charge })
        (fun e => { e with readers := readers.getD e.readers })).at? k = some y at hy
    rw [at?_modifyTwo hnew hx hne] at hy
    split_ifs at hy with c1 c2
    · subst c1
      obtain rfl := Option.some.inj hy
      rcases ha.leases hi k _ hx with ⟨hk, -⟩ | ⟨z, -, hz, hpay, -, hok, hcase⟩
      · exact absurd hk hne.symm
      · obtain rfl := Option.some.inj (he.symm.trans hz)
        have hr : (grown p a i s.last k e).readers = e.readers := by
          rcases hcase with ⟨⟨it, hit⟩, -⟩ | ⟨-, hr⟩
          · exact absurd hit (hv it)
          · exact hr
        rw [hholds, ha.sum hi.table (·.leases k)]
        rcases hp.2 with ⟨hl, rfl⟩ | ⟨hl, x, hxs, rfl, hlt⟩
        · have hnone : p.leases k = 0 := by simp [Payload.leases, hl]
          rw [hnone]
          exact hok.of_readers hpay hr
        · obtain rfl := Option.some.inj (he.symm.trans hxs)
          have hone : p.leases k = 1 := by simp [Payload.leases, hl]
          rw [hone]
          exact hok.leased rfl hlt
    · subst c2
      obtain rfl := Option.some.inj hy
      rcases ha.leases hi k _ hnew with ⟨-, hr, hl, hh⟩ | ⟨z, hk, -⟩
      · exact .inl ⟨hh, by rw [hl]; exact hr, by rw [hl]; decide⟩
      · exact absurd rfl hk
    · rcases ha.leases hi k y hy with ⟨hk, -⟩ | ⟨z, -, hz, hpay, -, hok, hcase⟩
      · exact absurd hk c2
      · have hr : y.readers = z.readers := by
          rcases hcase with ⟨⟨it, hit⟩, -⟩ | ⟨-, hr⟩
          · exact absurd hit (hv it)
          · exact hr
        have hnone : p.leases k = 0 := by
          rcases hp.2 with ⟨hl, -⟩ | ⟨hl, -⟩
          · simp [Payload.leases, hl]
          · have : source ≠ k := fun hh => c1 hh.symm
            simp [Payload.leases, hl, this]
        rw [hholds, ha.sum hi.table (·.leases k), hnone]
        exact hok.of_readers hpay hr

/-- The last part of every boxed iterator: admission, then charge and lease.  The room was
checked, so nothing fails after the admission. -/
lemma boxed_atomic {s₀ : Store} {kind : BoxedKind} {extra charge : Nat} {readers : Option Nat}
    (hi : Inv own held s₀) (hw : s₀.work = []) (hr : Reserved s₀ s)
    (hp : Settles (.otherRangeIterator ⟨some source, kind⟩) source readers s₀)
    (hcharge : charge = sizeBoxedState + extra) (hroom : charge ≤ s.roomLeft) :
    AtomicFrom s₀ own held Value.refs (do
      match ← admitPayload (.otherRangeIterator ⟨some source, kind⟩) with
      | .heap iter => do
          settleBoxed iter source extra charge readers
          pure (.heap iter)
      | _ => fail (err .invalidCode)) s := by
  have his := hi.reserved hr
  have hps : Settles (.otherRangeIterator ⟨some source, kind⟩) source readers s := by
    unfold Settles
    rw [hr.at?]
    exact hp
  refine wp_seq (admit_spec his _) (fun _ _ h => hr.trans h) ?_
  rintro _ t ⟨iter, rfl, ha, hc, ht⟩
  have hlive := ha.children source List.mem_cons_self
  have hcharged : (Payload.otherRangeIterator ⟨some source, kind⟩).bytes = .ok sizeBoxedState := rfl
  have hbytes := ha.bytes_eq his hc hcharged
  have hlimits : t.limits = s.limits := ha.fields.2
  have hle := his.counts.bytes_le
  have hmax := his.table.limit_le
  have hfit : t.bytes + extra ≤ t.limits.bytes := by
    unfold roomLeft at hroom
    rw [hlimits]
    omega
  obtain ⟨e, he⟩ := Option.isSome_iff_exists.1 hlive
  have hne : source ≠ iter := by
    rintro rfl
    have := ha.fresh
    rw [he] at this
    cases this
  obtain ⟨charged, -, hnew⟩ := ha.lookup_new his.table
  obtain ⟨a, i, -, hx⟩ := ha.lookup_old his.table hne
  rw [he] at hx
  have hadd : (checkedAdd t.bytes extra).filter (· ≤ t.limits.bytes) = some (t.bytes + extra) := by
    have : t.bytes + extra ≤ usizeMax := by
      rw [hlimits] at hfit
      have : isizeMax ≤ usizeMax := by decide
      omega
    rw [checkedAdd, if_pos this, Option.filter_some, if_pos (by simpa using hfit)]
  unfold settleBoxed
  rw [wp_bind, wp_get_bind, hadd]
  refine wp_ofExcept_bind (fun x hx => by cases hx) fun b hb => ?_
  obtain rfl := Except.ok.inj hb
  refine wp_read_bind (fun x hxe => ?_) fun _ _ => wp_read_bind (fun x hxe => ?_) fun _ _ => ?_
  · rw [entry_eq_ok.2 ⟨ht.isOpen, hnew⟩] at hxe
    cases hxe
  · rw [entry_eq_ok.2 ⟨ht.isOpen, hx⟩] at hxe
    cases hxe
  · refine ⟨ha.settled his hc ht hps hlive rfl hcharge hfit, ?_⟩
    change t.work = []
    rw [ha.fields.1, hr.work, hw]

lemma Reserved.roomLeft (hr : Reserved s t) : t.roomLeft = s.roomLeft := by
  unfold Store.roomLeft
  rw [hr.limits, hr.bytes]

/-- Whether a boxed iterator of this kind leases its source. -/
def BoxedKind.leases : BoxedKind → Bool
  | .chars _ | .split _ => true
  | _ => false

lemma settles_of_lease {kind : BoxedKind} {n : Nat} (hk : BoxedKind.leases kind = true)
    (hn : s.leaseReaders source = .ok n) :
    Settles (.otherRangeIterator ⟨some source, kind⟩) source (some n) s := by
  obtain ⟨e, he, rfl, hlt⟩ := leaseReaders_eq_ok hn
  refine ⟨rfl, .inr ⟨?_, e, he, rfl, hlt⟩⟩
  cases kind <;> simp_all [BoxedKind.leases, Payload.lease]

lemma settles_of_no_lease {kind : BoxedKind} (hk : BoxedKind.leases kind = false) :
    Settles (.otherRangeIterator ⟨some source, kind⟩) source none s := by
  refine ⟨rfl, .inl ⟨?_, rfl⟩⟩
  cases kind <;> simp_all [BoxedKind.leases, Payload.lease]

lemma pipelineAdmit_atomic {s₀ : Store} {kind : BoxedKind} {lease : Bool} (hi : Inv own held s₀)
    (hw : s₀.work = []) (hr : Reserved s₀ s) (hk : BoxedKind.leases kind = lease) (v : Value)
    (extra : Nat) :
    AtomicFrom s₀ own held Value.refs (pipelineAdmit v kind extra lease) s := by
  cases v with
  | heap h =>
      refine atomic_read_bind hr fun readers hrd => ?_
      refine atomic_ofExcept_bind hr fun charge hc => atomic_ensureRoom_bind hr fun hroom => ?_
      have hc := checkedAdd_eq_some (okOr_eq_ok.1 hc)
      refine atomic_alloc_bind hr fun t ht => ?_
      have hst : Settles (.otherRangeIterator ⟨some h, kind⟩) h readers s := by
        cases lease with
        | true =>
            simp only [if_true] at hrd
            rcases hn : s.leaseReaders h with x | n
            · simp [hn, Except.map] at hrd
            · rw [hn] at hrd
              obtain rfl := Except.ok.inj hrd
              exact settles_of_lease hk hn
        | false =>
            obtain rfl := Except.ok.inj hrd
            exact settles_of_no_lease hk
      have hst₀ : Settles (.otherRangeIterator ⟨some h, kind⟩) h readers s₀ := by
        unfold Settles at hst ⊢
        rw [hr.at?] at hst
        exact hst
      exact boxed_atomic hi hw (hr.trans ht) hst₀ hc (by rw [ht.roomLeft]; exact hroom)
  | _ => exact atomic_fail hr _

lemma pipelineChars_atomic (hi : Inv own held s) (hw : s.work = []) (v : Value) :
    Atomic own held Value.refs (pipelineChars v) s := by
  refine atomic_read_bind (.refl s) fun tag _ => ?_
  split_ifs
  · refine atomic_read_bind (.refl s) fun _ _ => atomic_alloc_bind (.refl s) fun t ht => ?_
    exact pipelineAdmit_atomic hi hw ht rfl v 8
  · exact atomic_read_bind (.refl s) fun _ _ => atomic_fail (.refl s) _

lemma pipelineAdapter_atomic (hi : Inv own held s) (hw : s.work = []) (v n : Value)
    (take : Bool) : Atomic own held Value.refs (pipelineAdapter v n take) s := by
  refine atomic_read_bind (.refl s) fun n _ => ?_
  cases v with
  | heap h =>
      refine atomic_read_bind (.refl s) fun p _ => atomic_guard_bind (.refl s) fun _ => ?_
      refine atomic_alloc_bind (.refl s) fun t ht => ?_
      exact pipelineAdmit_atomic hi hw ht (by cases take <;> rfl) _ 8
  | _ => exact atomic_fail (.refl s) _

lemma pipelineChild_atomic (hi : Inv own held s) (hw : s.work = []) (v : Value) :
    Atomic own held Value.refs (pipelineChild v) s := by
  cases v with
  | heap h =>
      refine atomic_read_bind (.refl s) fun p _ => ?_
      split
      · exact atomic_ofExcept_bind (.refl s) fun h _ => retained_atomic hi hw _
      · exact atomic_ofExcept_bind (.refl s) fun h _ => retained_atomic hi hw _
      · exact atomic_fail (.refl s) _
  | _ => exact atomic_fail (.refl s) _

lemma textSplit_atomic (hi : Inv own held s) (hw : s.work = []) (v delimiter : Value) :
    Atomic own held Value.refs (textSplit v delimiter) s := by
  cases v with
  | heap h =>
      refine atomic_read_bind (.refl s) fun n hn => ?_
      have hrest : ∀ needle : Char ⊕ List Char, AtomicFrom s own held Value.refs (do
          let copied := Sum.elim (fun _ => 0) utf8Len needle
          ensureRoom (sizeBoxedState + 40 + copied)
          alloc copied
          let pattern := needle.elim .char fun t => .string (.copy t)
          alloc 40
          let extra ← ofExcept (Split.bytes ⟨pattern, 0, 0⟩)
          let charge ← ofExcept (okOr (checkedAdd sizeBoxedState extra) (err .overflow))
          ensureRoom charge
          alloc sizeBoxedState
          match ← admitPayload (.otherRangeIterator ⟨some h, .split ⟨pattern, 0, 0⟩⟩) with
          | .heap iter => do
              settleBoxed iter h extra charge (some n)
              pure (.heap iter)
          | _ => fail (err .invalidCode)) s := by
        intro needle
        refine atomic_ensureRoom_bind (.refl s) fun _ => atomic_alloc_bind (.refl s) fun t ht => ?_
        refine atomic_alloc_bind ht fun u hu => ?_
        have hru := ht.trans hu
        refine atomic_ofExcept_bind hru fun extra _ => atomic_ofExcept_bind hru fun charge hc => ?_
        have hc := checkedAdd_eq_some (okOr_eq_ok.1 hc)
        refine atomic_ensureRoom_bind hru fun hroom => atomic_alloc_bind hru fun w hwv => ?_
        exact boxed_atomic hi hw (hru.trans hwv) (settles_of_lease rfl hn) hc
          (by rw [hwv.roomLeft]; exact hroom)
      simp only
      split
      · exact hrest (.inl _)
      · exact atomic_read_bind (.refl s) fun l _ => hrest (.inr l)
  | _ => exact atomic_fail (.refl s) _

lemma textMethodSplit_atomic (hi : Inv own held s) (hw : s.work = []) (v delimiter : Value) :
    Atomic own held Value.refs (textMethodSplit v delimiter) s := by
  refine atomic_read_bind (.refl s) fun tag _ => ?_
  split_ifs
  · exact atomic_read_bind (.refl s) fun _ _ => atomic_read_bind (.refl s) fun _ _ =>
      textSplit_atomic hi hw v delimiter
  · exact atomic_read_bind (.refl s) fun e _ => atomic_fail (.refl s) e

/-! ## Advancing -/

/-- Rewriting an iterator in place. -/
lemma setPayload_keeps (hi : Inv own held s) (hw : s.work = []) (hm : s.mutable h = .ok p)
    (hx : Exchanges p q .unit .unit) :
    wp (setPayload h q) (fun _ t => Inv own held t ∧ t.work = []) (fun _ _ => False) s := by
  obtain ⟨-, e, he, hread, hp, -⟩ := mutable_eq_ok.1 hm
  obtain ⟨hinv, hwt⟩ : AtomicFrom s own held (fun _ => 0) (setPayload h q) s :=
    rewrite_spec (c := fun n => n) (b := s.bytes) hi hw he hread hp rfl hi.counts.bytes_le rfl hx
  exact ⟨by simpa using hinv, hwt⟩

/-- A scalar result of an advance that rewrote the iterator in place. -/
lemma advance_keeps {r : Option Value} (hi : Inv own held s) (hw : s.work = [])
    (hm : s.mutable h = .ok p) (hx : Exchanges p q .unit .unit) (hr : optionRefs r = 0) :
    Keeps own held optionRefs (do setPayload h q; pure r) s := by
  refine wp_seq (setPayload_keeps hi hw hm hx) (fun _ _ h => h.elim) ?_
  rintro - t ⟨hit, hwt⟩
  refine ⟨?_, hwt⟩
  rw [hr, add_zero]
  exact hit

lemma keeps_none (hi : Inv own held s) (hw : s.work = []) :
    Keeps own held optionRefs (pure none) s := ⟨by simpa using hi, hw⟩

lemma exchanges_plain_scalar (hp : p.Plain) (hq : q.Plain) (hc : q.children = p.children) :
    Exchanges p q .unit .unit :=
  exchanges_plain hp hq (fun k => by rw [Payload.refs, Payload.refs, hc])
    (by rw [Payload.edges, Payload.edges, hc])

lemma optionNext_keeps (hi : Inv own held s) (hw : s.work = []) (h : Handle) :
    Keeps own held optionRefs (optionNext h) s := by
  have hself : Inv own held s ∧ s.work = [] := ⟨hi, hw⟩
  refine wp_read_bind (fun _ _ => hself) fun p hm => ?_
  obtain ⟨-, e, he, hread, hp, -⟩ := mutable_eq_ok.1 hm
  split
  · next payload =>
    have hle : edgesIn payload.toList ≤ s.edges := by
      have h1 := le_sum Payload.edges he
      have h2 := hi.counts.edges
      rw [hp] at h1
      change edgesIn payload.toList ≤ _ at h1
      omega
    rw [setPayload, wp_update_bind, wp_get_bind]
    change wp (ofExcept (okOr (checkedSub s.edges (edgesIn payload.toList)) _) >>= _) _ _ _
    rw [checkedSub_of_le hle]
    refine wp_ofExcept_bind (fun x hx => by cases hx) fun n hn => ?_
    obtain rfl := Except.ok.inj hn
    rw [setEdges, wp_update_bind]
    have hroom := hi.counts.room
    have hstrong : 1 ≤ e.strong := hi.counts.alive _ _ he
    have hown : optionRefs payload = refsIn payload.toList := by
      funext k
      cases payload <;> simp
    refine ⟨?_, hw⟩
    rw [hown]
    refine hi.rewrite (n := s.edges - edgesIn payload.toList) (b := s.bytes) he
      (fun e => { e with payload := .optionIterator none }) (fun _ => ⟨rfl, rfl⟩) (fun k => ?_)
      hstrong ⟨rfl, fun k => ?_, fun k => ?_, fun hex => ?_⟩ ?_ rfl
      hi.counts.bytes_le (by omega) fun d hd => (hi.held_owned d hd).trans (Nat.le_add_right _ _)
    · rw [hp, Pi.add_apply]
      change own k + refsIn payload.toList k + 0 + (if k = h then e.strong else 0) =
        own k + refsIn payload.toList k + (if k = h then e.strong else 0)
      omega
    · rw [hp]
      rfl
    · rw [hp]
      rfl
    · rw [hread] at hex
      cases hex
    · rw [hp]
      change s.edges - edgesIn payload.toList + edgesIn payload.toList = s.edges + 0
      omega
  · exact hself

/-- Only scalars are advanced. -/
lemma valueRangeAdvance_scalar {next finish a : Value}
    (ha : valueRangeAdvance next finish = .ok (some a)) : next.isHeap = false := by
  cases next with
  | heap h => cases ha
  | _ => rfl

lemma valueRangeNext_keeps (hi : Inv own held s) (hw : s.work = []) (h : Handle)
    (next finish : Value) : Keeps own held optionRefs (valueRangeNext h next finish) s := by
  have hself : Inv own held s ∧ s.work = [] := ⟨hi, hw⟩
  refine wp_ofExcept_bind (fun _ _ => hself) fun r hr => ?_
  split
  · exact keeps_none hi hw
  · refine wp_read_bind (fun _ _ => hself) fun p hm => ?_
    split
    · exact advance_keeps hi hw hm (exchanges_plain_scalar ⟨rfl, rfl⟩ ⟨rfl, rfl⟩ rfl)
        (refs_eq_zero_of_scalar (valueRangeAdvance_scalar hr))
    · exact hself

/-- A cursor only yields scalars. -/
lemma cursorNext_scalar {c d : RangeCursor} {r : Option Value} (hc : cursorNext c = .ok (r, d)) :
    optionRefs r = 0 := by
  unfold cursorNext at hc
  split_ifs at hc
  · obtain ⟨rfl, -⟩ := Prod.mk.inj (Except.ok.inj hc)
    rfl
  · rw [Except.bind_eq_ok] at hc
    obtain ⟨⟨past, last⟩, hst, hc⟩ := hc
    simp only at hc
    split_ifs at hc with h1 h2
    · obtain ⟨rfl, -⟩ := Prod.mk.inj (Except.ok.inj hc)
      rfl
    · obtain ⟨rfl, -⟩ := Prod.mk.inj (Except.ok.inj hc)
      refine refs_eq_zero_of_scalar ?_
      unfold cursorState at hst
      split at hst
      all_goals simp_all [Value.isHeap]
    · rw [Except.bind_eq_ok] at hc
      obtain ⟨n, hn, hc⟩ := hc
      obtain ⟨rfl, -⟩ := Prod.mk.inj (Except.ok.inj hc)
      refine refs_eq_zero_of_scalar ?_
      unfold cursorAdvance at hn
      split at hn
      all_goals simp_all [Value.isHeap]

/-! ## Text iterators -/

lemma charsNext_keeps (hi : Inv own held s) (hw : s.work = []) (h : Handle) :
    Keeps own held optionRefs (charsNext h) s := by
  have hself : Inv own held s ∧ s.work = [] := ⟨hi, hw⟩
  refine wp_read_bind (fun _ _ => hself) fun p _ => ?_
  split
  · refine wp_ofExcept_bind (fun _ _ => hself) fun source _ => ?_
    refine wp_read_bind (fun _ _ => hself) fun text _ => wp_ofExcept_bind (fun _ _ => hself) fun tail _ => ?_
    split
    · exact keeps_none hi hw
    · refine wp_read_bind (fun _ _ => hself) fun q hm => ?_
      split
      · refine wp_ofExcept_bind (fun _ _ => hself) fun n _ => ?_
        exact advance_keeps hi hw hm ⟨fun _ => rfl, rfl, fun _ => rfl, fun _ => rfl⟩
          (optionRefs_scalar rfl)
      · exact hself
  · exact hself

/-- What an exhausted split leaves once its payload has let go of its source: the edge, the lease
and the reference are still counted. -/
lemma endSplit_spec {st : Split} (hi : Inv own held s) (hh : s.at? h = some e)
    (hread : e.readers = 0) (hp : e.payload = .otherRangeIterator ⟨some source, .split st⟩)
    (st' : Split) :
    wp (endSplit source) (fun _ t => Inv own held t ∧ t.work = []) (fun _ _ => False)
      (s.modify h.slot fun e => { e with payload := .otherRangeIterator ⟨none, .split st'⟩ }) := by
  have href : e.payload.refs source = 1 := by
    rw [hp]
    change refsIn [Value.heap source] source = 1
    simp
  have hlease : e.payload.leases source = 1 := by simp [hp, Payload.leases, Payload.lease]
  have h1 := le_sum (·.refs source) hh
  have h2 := le_sum (·.leases source) hh
  have h3 := le_sum Payload.edges hh
  have hedge : e.payload.edges = 1 := by
    rw [hp]
    rfl
  obtain ⟨x, hx⟩ := hi.counts.live_of_refs (k := source) (by omega)
  obtain ⟨hxh, hxr, hxl⟩ : s.sum (·.holds source) + heldAt held source = 0 ∧
      x.readers = s.sum (·.leases source) ∧ s.sum (·.leases source) < exclusiveReaders := by
    rcases hi.leases _ _ hx with h | ⟨-, b, -⟩
    · exact h
    · omega
  have hne : h ≠ source := by
    rintro rfl
    obtain rfl := Option.some.inj (hh.symm.trans hx)
    omega
  have hstrong : 1 ≤ e.strong := hi.counts.alive _ _ hh
  have hstrong' : 1 ≤ x.strong := hi.counts.alive _ _ hx
  have hedges := hi.counts.edges
  have hroom := hi.counts.room
  have hx1 : (s.modify h.slot fun e =>
      { e with payload := .otherRangeIterator ⟨none, .split st'⟩ }).at? source = some x := by
    rw [at?_modify_of_ne hh (Ne.symm hne)]
    exact hx
  unfold endSplit
  rw [wp_get_bind]
  change wp (ofExcept (okOr (checkedSub s.edges 1) _) >>= _) _ _ _
  rw [checkedSub_of_le (by omega)]
  refine wp_ofExcept_bind (fun x hx => by cases hx) fun n hn => ?_
  obtain rfl := Except.ok.inj hn
  rw [setEdges, wp_update_bind]
  have hent : ({ s.modify h.slot fun e =>
      { e with payload := .otherRangeIterator ⟨none, .split st'⟩ } with
        edges := s.edges - 1 } : Store).entry source = .ok x :=
    entry_eq_ok.2 ⟨hi.table.isOpen, hx1⟩
  refine wp_read_bind (fun y hy => ?_) fun y hy => ?_
  · rw [hent] at hy
    cases hy
  rw [hent] at hy
  obtain rfl := Except.ok.inj hy
  refine wp_guardWith_bind (fun hn => hn (by omega)) fun _ => ?_
  rw [wp_update_bind]
  -- The source is owned by the split's old edge until it is released.
  have hc1 : Counts (own + (Value.heap source).refs) (heldEdges held)
      { s.modify h.slot fun e => { e with payload := .otherRangeIterator ⟨none, .split st'⟩ } with
        edges := s.edges - 1, bytes := s.bytes } := by
    refine hi.counts.rewrite hh _ (fun k => ?_) hstrong ?_ rfl hi.counts.bytes_le (by omega)
    · rw [hp, Pi.add_apply]
      change own k + (Value.heap source).refs k + 0 + (if k = h then e.strong else 0) =
        own k + refsIn [Value.heap source] k + (if k = h then e.strong else 0)
      simp
    · rw [hedge]
      change s.edges - 1 + 1 + heldEdges held = s.edges + 0 + heldEdges held
      omega
  have hc2 := hc1.rewrite (n := s.edges - 1) (b := s.bytes) hx1
    (fun e => { e with readers := e.readers - 1 }) (fun _ => rfl) hstrong' rfl rfl
    hi.counts.bytes_le (by change s.edges - 1 + s.work.length + 1 ≤ s.workCap; omega)
  have hit : Inv (own + (Value.heap source).refs) held (({ s.modify h.slot fun e =>
      { e with payload := .otherRangeIterator ⟨none, .split st'⟩ } with
        edges := s.edges - 1 } : Store).modify source.slot
          fun e => { e with readers := e.readers - 1 }) := by
    refine ⟨hc2, ?_, fun k y hy => ?_, fun d hd => (hi.held_owned d hd).trans (Nat.le_add_right _ _)⟩
    · refine (hi.table.of_same (sameTable_modifyTwo s h source
        (f := fun e => { e with payload := .otherRangeIterator ⟨none, .split st'⟩ })
        (g := fun e => { e with readers := e.readers - 1 })
        (fun _ => ⟨rfl, rfl⟩) fun _ => ⟨rfl, rfl⟩)).of_same ?_
      exact ⟨rfl, rfl, rfl, rfl, rfl, Nat.le_refl _, rfl, fun _ => rfl, fun _ => rfl⟩
    · have hls := sum_modifyTwo
        (f := fun e => { e with payload := .otherRangeIterator ⟨none, .split st'⟩ })
        (g := fun e => { e with readers := e.readers - 1 }) hh hx hne (·.leases k)
      have hhs := sum_modifyTwo
        (f := fun e => { e with payload := .otherRangeIterator ⟨none, .split st'⟩ })
        (g := fun e => { e with readers := e.readers - 1 }) hh hx hne (·.holds k)
      have z1 : (Payload.otherRangeIterator ⟨none, .split st'⟩).leases k = 0 := rfl
      have z2 : (Payload.otherRangeIterator ⟨none, .split st'⟩).holds k = 0 := rfl
      have z3 : e.payload.holds k = 0 := by rw [hp]; rfl
      simp only [z1, z2, z3] at hls hhs
      have hleases := Nat.add_right_cancel hls
      have hholds := Nat.add_right_cancel hhs
      rw [Nat.add_zero] at hleases hholds
      change (s.modifyTwo h source
        (fun e => { e with payload := .otherRangeIterator ⟨none, .split st'⟩ })
        (fun e => { e with readers := e.readers - 1 })).at? k = some y at hy
      change LeaseOk y ((s.modifyTwo h source
        (fun e => { e with payload := .otherRangeIterator ⟨none, .split st'⟩ })
        (fun e => { e with readers := e.readers - 1 })).sum (·.leases k)) ((s.modifyTwo h source
        (fun e => { e with payload := .otherRangeIterator ⟨none, .split st'⟩ })
        (fun e => { e with readers := e.readers - 1 })).sum (·.holds k) + heldAt held k)
      rw [at?_modifyTwo hh hx hne] at hy
      rw [show _ = s.sum (·.holds k) from hholds]
      split_ifs at hy with c1 c2
      · subst c1
        obtain rfl := Option.some.inj hy
        rw [hlease] at hleases
        exact LeaseOk.returned (hleases ▸ .inl ⟨hxh, hxr, hxl⟩) rfl
      · have hk : e.payload.leases k = 0 := by
          have : source ≠ k := fun hh => c1 hh.symm
          simp [hp, Payload.leases, Payload.lease, this]
        rw [hk, Nat.add_zero] at hleases
        subst c2
        obtain rfl := Option.some.inj hy
        rw [hleases]
        rcases hi.leases _ _ hh with h | ⟨-, -, hfull, -⟩
        · exact .inl h
        · rw [hread] at hfull
          cases hfull
      · have hk : e.payload.leases k = 0 := by
          have : source ≠ k := fun hh => c1 hh.symm
          simp [hp, Payload.leases, Payload.lease, this]
        rw [hk, Nat.add_zero] at hleases
        rw [hleases]
        exact hi.leases _ _ hy
  exact release_spec hit hi.held_owned

/-- An entry stays writable beside a partial result. -/
lemma Extends.mutable_eq (hx : Extends [] s t) (hit : Inv own held t) (hm : s.mutable h = .ok p) :
    ∃ x, t.at? h = some x ∧ x.readers = 0 ∧ x.payload = p ∧ t.mutable h = .ok p := by
  obtain ⟨-, e, he, hread, hp, hmoved⟩ := mutable_eq_ok.1 hm
  obtain ⟨x, hxh, hk⟩ := hx.old h e he
  have hxr : x.readers = 0 := hk.readers.trans hread
  have hxp : x.payload = p := hk.payload.trans hp
  exact ⟨x, hxh, hxr, hxp, mutable_eq_ok.2 ⟨hit.table.isOpen, x, hxh, hxr, hxp, hmoved⟩⟩

lemma payload_of_mutable (hm : s.mutable h = .ok p) : s.payload h = .ok p := by
  obtain ⟨hcl, e, he, -, hp, hmoved⟩ := mutable_eq_ok.1 hm
  exact payload_eq_ok.2 ⟨hcl, e, he, hp, hmoved⟩

lemma splitNext_keeps (hi : Inv own held s) (hw : s.work = []) (hm : s.mutable h = .ok p) :
    Keeps own held optionRefs (splitNext h) s := by
  have hself : Inv own held s ∧ s.work = [] := ⟨hi, hw⟩
  refine wp_read_bind (fun _ _ => hself) fun q hq => ?_
  obtain rfl : p = q := Except.ok.inj ((payload_of_mutable hm).symm.trans hq)
  split
  · next source st =>
    refine wp_read_bind (fun _ _ => hself) fun text _ => wp_ofExcept_bind (fun _ _ => hself) fun step _ => ?_
    refine wp_ofExcept_bind (fun _ _ => hself) fun piece _ => ?_
    refine wp_bind.2 (wp_get_bind.2 (wp_guardWith (fun _ => hself) fun _ => ?_))
    refine wp_seq (alloc_spec _) (fun _ _ ⟨a, h⟩ => h ▸ ⟨hi.reserved (.spent a), hw⟩) ?_
    rintro - _ ⟨a, rfl⟩
    have hr : Reserved s { s with allocator := a } := .spent a
    refine wp_seq (admit_extends ((Extends.start hi.table).reserved hr) (hi.reserved hr) ⟨rfl, rfl⟩)
      (fun _ _ hr' => ⟨hi.reserved (hr.trans hr'), by rw [hr'.work]; exact hw⟩) ?_
    rintro r t ⟨hit, hwt, hx⟩
    obtain ⟨x, hxh, hxr, hxp, hmt⟩ := hx.mutable_eq hit hm
    refine wp_read_bind (fun y hy => ?_) fun y hy => ?_
    · rw [hmt] at hy
      cases hy
    rw [hmt] at hy
    obtain rfl := Except.ok.inj hy
    simp only
    cases hf : step.finish with
    | true =>
        simp only [if_true]
        rw [setPayload, wp_update_bind]
        refine wp_seq (endSplit_spec hit hxh hxr hxp _) (fun _ _ h => h.elim) ?_
        rintro - u ⟨hiu, hwu⟩
        exact ⟨hiu, hwu⟩
    | false =>
        simp only [Bool.false_eq_true, if_false]
        refine wp_seq (setPayload_keeps hit (hwt.trans hw) hmt ?_) (fun _ _ h => h.elim) ?_
        · exact ⟨fun _ => rfl, rfl, fun _ => rfl, fun _ => rfl⟩
        · rintro - u ⟨hiu, hwu⟩
          exact ⟨hiu, hwu⟩
  · exact keeps_none hi hw
  · exact hself

lemma otherRangeNext_keeps (hi : Inv own held s) (hw : s.work = []) (hm : s.mutable h = .ok p) :
    Keeps own held optionRefs (otherRangeNext h) s := by
  have hself : Inv own held s ∧ s.work = [] := ⟨hi, hw⟩
  refine wp_read_bind (fun _ _ => hself) fun q hq => ?_
  split
  · exact charsNext_keeps hi hw h
  · exact splitNext_keeps hi hw hm
  · refine wp_read_bind (fun _ _ => hself) fun q hm => ?_
    split
    · refine wp_ofExcept_bind (fun _ _ => hself) fun r hr => ?_
      obtain ⟨value, cursor⟩ := r
      exact advance_keeps hi hw hm ⟨fun _ => rfl, rfl, fun _ => rfl, fun _ => rfl⟩
        (cursorNext_scalar hr)
    · exact hself

/-! ## Pairs of an object -/

lemma objectPair_extends (hi : Inv own held s) (hw : s.work = []) (key : List Char)
    (child : Value) :
    wp (objectPair key child)
      (fun r t => Inv (own + r.refs) held t ∧ t.work = [] ∧ Extends [] s t)
      (fun _ t => Inv own held t ∧ t.work = []) s := by
  have hself : Inv own held s ∧ s.work = [] := ⟨hi, hw⟩
  refine wp_bind.2 (wp_get_bind.2 (wp_guardWith (fun _ => hself) fun _ => ?_))
  refine wp_seq (alloc_spec _) (fun _ _ ⟨a, h⟩ => h ▸ ⟨hi.reserved (.spent a), hw⟩) ?_
  rintro - _ ⟨a, rfl⟩
  have hr : Reserved s { s with allocator := a } := .spent a
  refine wp_seq (admit_extends ((Extends.start hi.table).reserved hr) (hi.reserved hr) ⟨rfl, rfl⟩)
    (fun _ _ hr' => ⟨hi.reserved (hr.trans hr'), by rw [hr'.work]; exact hw⟩) ?_
  rintro r t ⟨hit, hwt, hx⟩
  have hwt : t.work = [] := hwt.trans hw
  have hle : ∀ v : Value, ∀ k, own k ≤ (own + v.refs) k := fun v k => Nat.le_add_right _ _
  rw [wp_bind, wp_attempt]
  have hpair : wp (list .tuple [r, child])
      (fun v u => Inv (own + r.refs + v.refs) held u ∧ u.work = [] ∧ Extends [] s u)
      (fun _ u => Reserved t u) t := by
    refine wp_bind.2 (wp_get_bind.2 (wp_guardWith (fun _ => .refl t) fun _ => wp_get_bind.2 ?_))
    simp only [structArity]
    refine wp_guardWith_bind (fun _ => .refl t) fun _ => wp_ofExcept_bind (fun _ _ => .refl t) fun n _ => ?_
    refine wp_bind.2 (wp_get_bind.2 (wp_guardWith (fun _ => .refl t) fun _ => ?_))
    refine wp_seq (alloc_spec _) (fun _ _ ⟨a, h⟩ => h ▸ .spent a) ?_
    rintro - _ ⟨a, rfl⟩
    have hrt : Reserved t { t with allocator := a } := .spent a
    refine wp_mono (admit_extends (hx.reserved hrt) (hit.reserved hrt) ⟨rfl, rfl⟩) ?_
      fun _ _ h => hrt.trans h
    rintro v u ⟨hiu, hwu, hxu⟩
    exact ⟨hiu, hwu.trans hwt, hxu⟩
  refine wp_mono hpair ?_ ?_
  · rintro v u ⟨hiu, hwu, hxu⟩
    rw [wp_bind, wp_attempt]
    have hiu' : Inv (own + v.refs + r.refs) held u := by
      rw [add_right_comm]
      exact hiu
    refine wp_mono (release_extends hxu hi hw hiu' (hle v)) ?_ fun _ _ h => h.elim
    rintro ⟨⟩ w ⟨hiw, hww, hxw⟩
    exact ⟨hiw, hww, hxw⟩
  · intro x u hr
    rw [wp_bind, wp_attempt]
    refine wp_mono (release_extends (hx.reserved hr) hi hw (hit.reserved hr)
      fun k => Nat.le_refl _) ?_ fun _ _ h => h.elim
    rintro ⟨⟩ w ⟨hiw, hww, -⟩
    exact ⟨hiw, hww⟩

/-- The element an iterator yields, beside everything else. -/
lemma iterElement_extends (hi : Inv own held s) (hw : s.work = []) (source : Handle)
    (index : Nat) :
    wp (iterElement source index)
      (fun r t => Inv (own + r.refs) held t ∧ t.work = [] ∧ Extends [] s t)
      (fun _ t => Inv own held t ∧ t.work = []) s := by
  have hself : Inv own held s ∧ s.work = [] := ⟨hi, hw⟩
  refine wp_read_bind (fun _ _ => hself) fun p _ => ?_
  split
  · split
    · exact objectPair_extends hi hw _ _
    · exact hself
  · refine wp_read_bind (fun _ _ => hself) fun q _ => ?_
    split
    · split
      · refine wp_seq (retain_inv hi _) (fun _ _ h => h ▸ hself) ?_
        rintro - t ⟨rfl, hit⟩
        exact ⟨hit, hw, (Extends.start hi.table).bump _⟩
      · exact hself
    · exact hself

/-- Advancing an iterator hands the element's reference to the caller. -/
lemma iteratorNext_keeps (hi : Inv own held s) (hw : s.work = []) (v : Value) :
    Keeps own held optionRefs (iteratorNext v) s := by
  have hself : Inv own held s ∧ s.work = [] := ⟨hi, hw⟩
  cases v with
  | heap h =>
      refine wp_read_bind (fun _ _ => hself) fun p hm => ?_
      split
      · split_ifs
        · exact keeps_none hi hw
        · refine wp_ofExcept_bind (fun _ _ => hself) fun n _ => ?_
          exact advance_keeps hi hw hm (exchanges_plain_scalar ⟨rfl, rfl⟩ ⟨rfl, rfl⟩ rfl)
            (optionRefs_scalar rfl)
      · refine wp_read_bind (fun _ _ => hself) fun q _ => ?_
        refine wp_ofExcept_bind (fun _ _ => hself) fun n _ => ?_
        split_ifs
        · exact keeps_none hi hw
        · refine wp_seq (iterElement_extends hi hw _ _) (fun _ _ h => h) ?_
          rintro r t ⟨hit, hwt, hx⟩
          obtain ⟨x, -, -, -, hmt⟩ := hx.mutable_eq hit hm
          refine wp_read_bind (fun y hy => ?_) fun y hy => ?_
          · rw [hmt] at hy
            cases hy
          rw [hmt] at hy
          obtain rfl := Except.ok.inj hy
          simp only
          refine wp_seq (setPayload_keeps hit hwt hmt ?_) (fun _ _ h => h.elim) ?_
          · exact ⟨fun _ => rfl, rfl, fun _ => rfl, fun _ => rfl⟩
          · rintro - u ⟨hiu, hwu⟩
            exact ⟨hiu, hwu⟩
      · exact otherRangeNext_keeps hi hw hm
      · exact valueRangeNext_keeps hi hw _ _ _
      · exact optionNext_keeps hi hw _
      · exact hself
  | _ => exact hself

end Store

end Rnx
