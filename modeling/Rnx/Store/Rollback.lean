import Rnx.Store.Exchange

/-!
# Undoing a partial result

Some operations publish part of their result before a later step can still fail: a removed field
is wrapped before it is taken out, and a clone is built bottom-up.  They undo it by releasing
what they built.  `Extends s u` describes the store in between: everything of `s` is still there,
and the entries that were added refer only to older ones.  Once nothing of the partial result is
owned any more, no added entry is left, and everything is as it was (`Restored`) but for the slots
the added entries had used.
-/

namespace Rnx

open ErrState

namespace Store

variable {s t u v : Store} {h k : Handle} {e : Entry} {own own' : Handle → Nat}
  {held : Option Hold} {marks : List Handle} {p : Payload}

/-! ## Totals of two stores -/

/-- The total over a range that covers the table. -/
lemma total_eq_range (φ : Handle → Entry → Nat) {n : Nat} (hn : s.slots.length ≤ n) :
    s.total φ = ∑ i ∈ Finset.range n, (s.cell i).elim 0 (fun p => φ p.1 p.2) := by
  refine Finset.sum_subset (Finset.range_mono hn) fun i _ hi => ?_
  have : s.cell i = none := cell_eq_none_iff.2 fun sl hsl => by
    rw [List.getElem?_eq_none (by simpa using hi)] at hsl
    cases hsl
  rw [this]
  rfl

/-- A store that has every entry of another has at least its totals. -/
lemma total_le_of_lookup {φ ψ : Handle → Entry → Nat}
    (hle : ∀ k e, s.at? k = some e → ∃ e', t.at? k = some e' ∧ φ k e ≤ ψ k e') :
    s.total φ ≤ t.total ψ := by
  rw [total_eq_range φ (Nat.le_max_left s.slots.length t.slots.length),
    total_eq_range ψ (Nat.le_max_right s.slots.length t.slots.length)]
  refine Finset.sum_le_sum fun i _ => ?_
  rcases hc : s.cell i with _ | p
  · exact Nat.zero_le _
  · obtain ⟨e', he', hφ⟩ := hle _ _ (at?_of_cell hc)
    have := at?_eq_some.1 he'
    rw [cell_handle_slot hc] at this
    rw [this]
    exact hφ

/-- Stores with the same entries have the same totals. -/
lemma total_eq_of_lookup {φ ψ : Handle → Entry → Nat}
    (hst : ∀ k e, s.at? k = some e → ∃ e', t.at? k = some e' ∧ φ k e = ψ k e')
    (hts : ∀ k, (t.at? k).isSome = true → (s.at? k).isSome = true) : s.total φ = t.total ψ := by
  refine Nat.le_antisymm (total_le_of_lookup fun k e he => ?_) (total_le_of_lookup fun k e' he => ?_)
  · obtain ⟨e', he', hφ⟩ := hst k e he
    exact ⟨e', he', hφ.le⟩
  · obtain ⟨e, hs⟩ := Option.isSome_iff_exists.1 (hts k (by rw [he]; rfl))
    obtain ⟨x, hx, hφ⟩ := hst k e hs
    obtain rfl := Option.some.inj (he.symm.trans hx)
    exact ⟨e, hs, hφ.ge⟩

/-! ## Extensions -/

/-- What an entry keeps while a partial result is built beside it. -/
structure Kept (mark : Bool) (e e' : Entry) : Prop where
  payload : e'.payload = e.payload
  readers : e'.readers = e.readers
  charged : e'.chargedBytes = e.chargedBytes
  path : e'.clonePath = (e.clonePath || mark)

/-- The allocation order of `s`, continued by the slots `f`. -/
structure Continues (s u : Store) (o f : List Nat) : Prop where
  before : Linked s.prevOf s.nextOf s.first s.last o
  before_mem : ∀ i, i ∈ o ↔ (s.cell i).isSome
  after : Linked u.prevOf u.nextOf u.first u.last (o ++ f)
  after_mem : ∀ i, i ∈ o ++ f ↔ (u.cell i).isSome
  /-- Added entries refer only to entries before them. -/
  older : ∀ l x r, f = l ++ x :: r → ∀ q, u.cell x = some q →
    ∀ k, Value.heap k ∈ q.2.payload.children → k.slot ∉ x :: r
  origin : ∀ i ∈ f, i ∈ s.free ∨ s.slots.length ≤ i

/-- `u` is `s` with further entries; those in `marks` are marked as being cloned. -/
structure Extends (marks : List Handle) (s u : Store) : Prop where
  old : ∀ k e, s.at? k = some e → ∃ e', u.at? k = some e' ∧ Kept (decide (k ∈ marks)) e e'
  plain : ∀ k e', u.at? k = some e' → s.at? k = none → e'.payload.Plain
  order : ∃ o f, Continues s u o f
  free : ∀ i ∈ u.free, i ∈ s.free ∨ s.slots.length ≤ i
  limits : u.limits = s.limits
  length : s.slots.length ≤ u.slots.length

/-- Two stores with the same cells, ends and free list are extended alike. -/
lemma Extends.congr (hx : Extends marks s u) (hc : ∀ i, v.cell i = u.cell i)
    (hfirst : v.first = u.first) (hlast : v.last = u.last) (hfree : v.free = u.free)
    (hlimits : v.limits = u.limits) (hlength : v.slots.length = u.slots.length) :
    Extends marks s v := by
  have hat : ∀ k, v.at? k = u.at? k := fun k => by
    unfold Store.at?
    rw [hc]
  have hprev : v.prevOf = u.prevOf := funext fun i => by
    unfold prevOf
    rw [hc]
  have hnext : v.nextOf = u.nextOf := funext fun i => by
    unfold nextOf
    rw [hc]
  obtain ⟨o, f, ho⟩ := hx.order
  refine ⟨fun k e he => hat k ▸ hx.old k e he, fun k e' he => hx.plain k e' (hat k ▸ he),
    ⟨o, f, ⟨ho.before, ho.before_mem, ?_, ?_, ?_, ho.origin⟩⟩, ?_, hlimits.trans hx.limits,
    hlength ▸ hx.length⟩
  · rw [hprev, hnext, hfirst, hlast]
    exact ho.after
  · intro i
    rw [hc]
    exact ho.after_mem i
  · intro l x r hf q hq
    exact ho.older l x r hf q (hc x ▸ hq)
  · rw [hfree]
    exact hx.free

lemma Extends.reserved (hx : Extends marks s u) (hr : Reserved u v) : Extends marks s v :=
  hx.congr hr.cell hr.first hr.last hr.free hr.limits (by rw [hr.slots])

/-- Nothing added yet. -/
lemma Extends.start (ht : Table s) : Extends [] s s := by
  obtain ⟨o, hl, hm⟩ := ht.order
  refine ⟨fun k e he => ⟨e, he, rfl, rfl, rfl, by simp⟩, fun k e' he hn => ?_,
    ⟨o, [], ⟨hl, hm, by simpa using hl, by simpa using hm, ?_, by simp⟩⟩, fun i hi => .inl hi, rfl,
    Nat.le_refl _⟩
  · rw [hn] at he
    cases he
  · intro l x r hf
    simp at hf

/-- A rewrite that keeps links, payload, readers and charge of the entries of `u`. -/
lemma Extends.rewrite {marks' : List Handle} (hx : Extends marks s u) (hsame : SameTable u v)
    (hback : ∀ k y, v.at? k = some y → ∃ x, u.at? k = some x ∧ y.payload = x.payload)
    (hold : ∀ k x, u.at? k = some x → ∃ y, v.at? k = some y ∧
      ∀ e, s.at? k = some e → Kept (decide (k ∈ marks)) e x → Kept (decide (k ∈ marks')) e y) :
    Extends marks' s v := by
  obtain ⟨o, f, ho⟩ := hx.order
  refine ⟨fun k e he => ?_, fun k y hy hn => ?_,
    ⟨o, f, ⟨ho.before, ho.before_mem, ?_, ?_, ?_, ho.origin⟩⟩, ?_, hsame.limits.trans hx.limits,
    hsame.length ▸ hx.length⟩
  · obtain ⟨x, hx', hk⟩ := hx.old k e he
    obtain ⟨y, hy, hyk⟩ := hold k x hx'
    exact ⟨y, hy, hyk e he hk⟩
  · obtain ⟨x, hx', hp⟩ := hback k y hy
    rw [hp]
    exact hx.plain k x hx' hn
  · rw [hsame.prevOf, hsame.nextOf, hsame.first, hsame.last]
    exact ho.after
  · intro i
    rw [hsame.isSome]
    exact ho.after_mem i
  · intro l x r hf q hq k hk
    obtain ⟨y, hy, hp⟩ := hback q.1 q.2 (at?_of_cell hq)
    have hs := cell_handle_slot hq
    rw [hp] at hk
    exact ho.older l x r hf (q.1, y) (hs ▸ at?_eq_some.1 hy) k hk
  · rw [hsame.free]
    exact hx.free

lemma Extends.modify {f : Entry → Entry} (hx : Extends marks s u) (hh : u.at? h = some e)
    (hf : ∀ e, (f e).previous = e.previous ∧ (f e).next = e.next ∧ (f e).payload = e.payload ∧
      (f e).readers = e.readers ∧ (f e).chargedBytes = e.chargedBytes ∧
      (f e).clonePath = e.clonePath) :
    Extends marks s (u.modify h.slot f) := by
  refine hx.rewrite (sameTable_modify u _ fun e => ⟨(hf e).1, (hf e).2.1⟩) (fun k y hy => ?_)
    fun k x hk => ?_
  · rw [at?_modify hh] at hy
    split_ifs at hy with hkh
    · obtain rfl := Option.some.inj hy
      exact ⟨e, hkh ▸ hh, (hf e).2.2.1⟩
    · exact ⟨y, hy, rfl⟩
  · rw [at?_modify hh]
    split_ifs with hkh
    · subst hkh
      obtain rfl := Option.some.inj (hh.symm.trans hk)
      obtain ⟨-, -, h1, h2, h3, h4⟩ := hf e
      exact ⟨_, rfl, fun d _ hd => ⟨h1.trans hd.payload, h2.trans hd.readers, h3.trans hd.charged,
        h4.trans hd.path⟩⟩
    · exact ⟨x, hk, fun d _ hd => hd⟩

lemma Extends.bump (hx : Extends marks s u) (f : Handle → Nat) : Extends marks s (u.bump f) := by
  refine hx.rewrite (sameTable_bump u f) (fun k y hy => ?_) fun k x hk => ?_
  · rw [at?_bump, Option.map_eq_some_iff] at hy
    obtain ⟨x, hx', rfl⟩ := hy
    exact ⟨x, hx', rfl⟩
  · rw [at?_bump, hk]
    exact ⟨_, rfl, fun d _ hd => ⟨hd.payload, hd.readers, hd.charged, hd.path⟩⟩

/-- Every child of a live payload is live. -/
lemma Inv.child_live (hi : Inv own held s) (hh : s.at? h = some e)
    (hk : Value.heap k ∈ e.payload.children) : ∃ x, s.at? k = some x := by
  have hpos : 0 < e.payload.refs k := refsIn_pos_of_mem hk
  have := le_sum (·.refs k) hh
  exact hi.counts.live_of_refs (by omega)

lemma Vacant.length_mono {w : Store} {i g : Nat} {rest : List Nat} (hv : Vacant s w i g rest) :
    s.slots.length ≤ w.slots.length := by
  by_contra hn
  have hlt := hv.lt
  have := hv.generation w.slots.length (by omega)
  rw [List.getElem?_eq_none (Nat.le_refl _), List.getElem?_eq_getElem (by omega)] at this
  cases this

lemma grown_kept {a : Admitted} {i : Nat} {last : Option Nat} (hp : p.Plain) (k : Handle)
    (x : Entry) : (grown p a i last k x).payload = x.payload ∧
      (grown p a i last k x).readers = x.readers ∧
      (grown p a i last k x).chargedBytes = x.chargedBytes ∧
      (grown p a i last k x).clonePath = x.clonePath := by
  refine ⟨rfl, ?_, rfl, rfl⟩
  have hl := hp.lease
  change leasedReaders p a.readers k.slot x.readers = x.readers
  unfold leasedReaders
  split
  · cases hl
  · rfl

/-- One more entry. -/
lemma Extends.admission (hx : Extends marks s u) (hi : Inv own held u) (ha : Admission p u t h)
    (hp : p.Plain) : Extends marks s t := by
  have ht := hi.table
  obtain ⟨charged, -, hnew⟩ := ha.lookup_new ht
  have hfresh : s.at? h = none := by
    rcases hs : s.at? h with _ | e
    · rfl
    · obtain ⟨e', he', -⟩ := hx.old h e hs
      rw [ha.fresh] at he'
      cases he'
  have holds : ∀ k x, u.at? k = some x → ∃ y, t.at? k = some y ∧ y.payload = x.payload ∧
      y.readers = x.readers ∧ y.chargedBytes = x.chargedBytes ∧ y.clonePath = x.clonePath := by
    intro k x hk
    have hkh : k ≠ h := by
      rintro rfl
      rw [ha.fresh] at hk
      cases hk
    obtain ⟨a, i, -, hlook⟩ := ha.lookup_old ht hkh
    rw [hk] at hlook
    exact ⟨_, hlook, grown_kept hp k x⟩
  have hback : ∀ k y, t.at? k = some y → k ≠ h → ∃ x, u.at? k = some x ∧ y.payload = x.payload := by
    intro k y hy hkh
    obtain ⟨a, i, -, hlook⟩ := ha.lookup_old ht hkh
    rw [hlook, Option.map_eq_some_iff] at hy
    obtain ⟨x, hx', rfl⟩ := hy
    exact ⟨x, hx', rfl⟩
  obtain ⟨o, f, ho⟩ := hx.order
  obtain ⟨w, i, g, rest, a, hv, rfl, rfl, -, -⟩ := ha.shape
  obtain ⟨hlink, hmem⟩ := linked_published (p := p) (a := a) ht hv ho.after ho.after_mem
  rw [List.append_assoc] at hlink hmem
  refine ⟨fun k e he => ?_, fun k y hy hn => ?_,
    ⟨o, f ++ [i], ⟨ho.before, ho.before_mem, hlink, hmem, ?_, ?_⟩⟩, fun j hj => ?_, ?_, ?_⟩
  · obtain ⟨x, hxk, hk⟩ := hx.old k e he
    obtain ⟨y, hy, h1, h2, h3, h4⟩ := holds k x hxk
    exact ⟨y, hy, h1.trans hk.payload, h2.trans hk.readers, h3.trans hk.charged, h4.trans hk.path⟩
  · by_cases hkh : k = ⟨i, g⟩
    · subst hkh
      rw [hnew] at hy
      rw [← Option.some.inj hy]
      exact hp
    · obtain ⟨x, hxk, hpay⟩ := hback k y hy hkh
      rw [hpay]
      exact hx.plain k x hxk hn
  · intro l x r hf q hq k hk
    rcases List.eq_nil_or_concat r with rfl | ⟨r', z, rfl⟩
    · -- The new entry: its children were live before it.
      obtain ⟨-, hxi⟩ := List.append_inj' (hf : f ++ [i] = l ++ [x]) rfl
      obtain rfl : i = x := by simpa using hxi
      have hq' := at?_eq_some.1 hnew
      obtain rfl := Option.some.inj (hq.symm.trans hq')
      intro hmem
      have hki : k.slot = i := by simpa using hmem
      have hlive := ha.children k hk
      unfold Store.at? at hlive
      rw [hki, hv.cell_none] at hlive
      cases hlive
    · have hf' : f ++ [i] = (l ++ x :: r') ++ [z] := by simpa using hf
      obtain ⟨hfl, hiz⟩ := List.append_inj' hf' rfl
      obtain rfl : i = z := by simpa using hiz
      have hxi : x ≠ i := by
        have := hlink.nodup
        rw [hf'] at this
        rintro rfl
        simp [List.nodup_append] at this
      have hqs := cell_handle_slot hq
      have hqh : q.1 ≠ ⟨i, g⟩ := by
        rintro he
        rw [he] at hqs
        exact hxi hqs.symm
      obtain ⟨y, hy, hpay⟩ := hback q.1 q.2 (at?_of_cell hq) hqh
      rw [hpay] at hk
      have hold := ho.older l x r' hfl (q.1, y) (hqs ▸ at?_eq_some.1 hy) k hk
      obtain ⟨c, hc⟩ := hi.child_live hy hk
      intro hmem
      rcases List.mem_cons.1 hmem with hm | hm
      · exact hold (hm ▸ List.mem_cons_self)
      · rw [List.concat_eq_append, List.mem_append, List.mem_singleton] at hm
        rcases hm with hm | hm
        · exact hold (List.mem_cons_of_mem _ hm)
        · have := at?_eq_some.1 hc
          rw [hm, hv.cell_none] at this
          cases this
  · intro j hj
    rcases List.mem_append.1 hj with hj | hj
    · exact ho.origin j hj
    · obtain rfl := List.mem_singleton.1 hj
      rcases hv.origin with h1 | h1
      · exact hx.free j h1
      · exact .inr (hx.length.trans h1)
  · exact hx.free j (hv.rest_free j hj).1
  · exact ha.fields.2.trans hx.limits
  · rw [published_length]
    exact hx.length.trans hv.length_mono

/-! ## Releases -/

/-- An old entry is still owned as it was, so a release cannot use it up. -/
lemma Extends.not_last (hx : Extends marks s u) (hs : Inv own held s) (hw : s.work = [])
    (hu : Inv (own' + (Value.heap h).refs) held u) (hown : ∀ k, own k ≤ own' k)
    (hh : u.at? h = some e) (h1 : e.strong = 1) : s.at? h = none := by
  rcases hsh : s.at? h with _ | d
  · rfl
  · have hb := hs.counts.balance h
    have hpos := hs.counts.alive h d hsh
    have hb' := hu.counts.balance h
    rw [strongAt_of_at? hsh, hw, refsIn_nil] at hb
    rw [strongAt_of_at? hh, Pi.add_apply, Value.refs_self] at hb'
    have hsum : s.sum (·.refs h) ≤ u.sum (·.refs h) := total_le_of_lookup fun k x hk => by
      obtain ⟨x', hx', hkept⟩ := hx.old k x hk
      exact ⟨x', hx', by rw [hkept.payload]⟩
    have := hown h
    omega

/-- Removing one added slot keeps the others in order. -/
lemma Continues.freed {o f : List Nat} (hc : Continues s u o f) (hh : u.at? h = some e)
    (hn : s.at? h = none) (hs : ∀ k, (s.at? k).isSome = true → (u.at? k).isSome = true)
    (hlink : Linked t.prevOf t.nextOf t.first t.last ((o ++ f).erase h.slot))
    (hmem : ∀ i, i ∈ (o ++ f).erase h.slot ↔ (t.cell i).isSome)
    (hback : ∀ k y, t.at? k = some y → ∃ x, u.at? k = some x ∧ y.payload = x.payload) :
    Continues s t o (f.erase h.slot) := by
  have hno : h.slot ∉ o := fun ho => by
    obtain ⟨q, hq⟩ := Option.isSome_iff_exists.1 ((hc.before_mem _).1 ho)
    have hat := at?_of_cell hq
    obtain ⟨x, hx⟩ := Option.isSome_iff_exists.1 (hs q.1 (by rw [hat]; rfl))
    have := eq_of_slot_eq hx hh (cell_handle_slot hq)
    rw [this, hn] at hat
    cases hat
  rw [List.erase_append_right _ hno] at hlink hmem
  refine ⟨hc.before, hc.before_mem, hlink, hmem, ?_, fun i hi => hc.origin i (List.mem_of_mem_erase hi)⟩
  intro l x r hf q hq k hk
  obtain ⟨y, hy, hpay⟩ := hback q.1 q.2 (at?_of_cell hq)
  have hqs := cell_handle_slot hq
  rw [hpay] at hk
  have hfmem : h.slot ∈ f := by
    have := (hc.after_mem h.slot).2 (by rw [at?_eq_some.1 hh]; rfl)
    exact (List.mem_append.1 this).resolve_left hno
  -- Every split of the shorter list comes from one of the longer.
  obtain ⟨a, b, hab⟩ := List.append_of_mem hfmem
  have hnd : f.Nodup := (List.nodup_append.1 hc.after.nodup).2.1
  have herase : f.erase h.slot = a ++ b := by
    rw [hab, List.erase_append_right _ (Linked.not_mem_of_split hnd hab).1, List.erase_cons_head]
  rw [herase] at hf
  have hsplit : ∃ l' r', f = l' ++ x :: r' ∧ ∀ j ∈ r, j ∈ r' := by
    rcases List.append_eq_append_iff.1 hf with ⟨c, rfl, hb⟩ | ⟨c, ha, hb⟩
    · exact ⟨a ++ h.slot :: c, r, by rw [hab, hb]; simp, fun j hj => hj⟩
    · cases c with
      | nil =>
          simp only [List.nil_append] at hb
          simp only [List.append_nil] at ha
          exact ⟨l ++ [h.slot], r, by rw [hab, ha, ← hb]; simp, fun j hj => hj⟩
      | cons d c =>
          simp only [List.cons_append, List.cons.injEq] at hb
          obtain ⟨rfl, rfl⟩ := hb
          refine ⟨l, c ++ h.slot :: b, by rw [hab, ha]; simp, fun j hj => ?_⟩
          rcases List.mem_append.1 hj with hj | hj <;> simp [hj]
  obtain ⟨l', r', hf', hr⟩ := hsplit
  have hold := hc.older l' x r' hf' (q.1, y) (hqs ▸ at?_eq_some.1 hy) k hk
  intro hm
  rcases List.mem_cons.1 hm with hm | hm
  · exact hold (hm ▸ List.mem_cons_self)
  · exact hold (List.mem_cons_of_mem _ (hr _ hm))

/-- A cascade beside the entries of `s` takes only added ones away. -/
lemma extends_follows (hs : Inv own held s) (hw : s.work = []) (hown : ∀ k, own k ≤ own' k) :
    Follows own' held (fun _ u => Extends marks s u) where
  pop := fun _ u w hx => hx.congr (fun _ => rfl) rfl rfl rfl rfl rfl
  step := by
    intro h u t hu _ hstep hx
    cases hstep with
    | lowered e he h2 ht =>
        subst ht
        exact hx.modify he fun _ => ⟨rfl, rfl, rfl, rfl, rfl, rfl⟩
    | freed e he h1 gone others sums work length limits order free =>
        have hn := hx.not_last hs hw hu hown he h1
        have hp := hx.plain h e he hn
        have hsurv : ∀ k x, (survivor e k x).payload = x.payload ∧
            (survivor e k x).readers = x.readers ∧ (survivor e k x).chargedBytes = x.chargedBytes ∧
            (survivor e k x).clonePath = x.clonePath := by
          intro k x
          unfold survivor
          rw [settle_none hp.lease hp.exclusive]
          exact ⟨rfl, rfl, rfl, rfl⟩
        have hback : ∀ k y, t.at? k = some y → ∃ x, u.at? k = some x ∧ y.payload = x.payload := by
          intro k y hy
          have hkh : k ≠ h := by
            rintro rfl
            rw [gone] at hy
            cases hy
          rw [others k hkh, Option.map_eq_some_iff] at hy
          obtain ⟨x, hx', rfl⟩ := hy
          exact ⟨x, hx', (hsurv k x).1⟩
        obtain ⟨o, f, ho⟩ := hx.order
        obtain ⟨hlink, hmem⟩ := order _ ho.after ho.after_mem
        refine ⟨fun k d hd => ?_, fun k y hy hkn => ?_, ⟨o, _, ho.freed he hn ?_ hlink hmem hback⟩,
          fun i hi => ?_, limits.trans hx.limits, length ▸ hx.length⟩
        · have hkh : k ≠ h := by
            rintro rfl
            rw [hn] at hd
            cases hd
          obtain ⟨x, hx', hk⟩ := hx.old k d hd
          obtain ⟨s1, s2, s3, s4⟩ := hsurv k x
          exact ⟨survivor e k x, by rw [others k hkh, hx']; rfl, s1.trans hk.payload,
            s2.trans hk.readers, s3.trans hk.charged, s4.trans hk.path⟩
        · obtain ⟨x, hx', hpay⟩ := hback k y hy
          rw [hpay]
          exact hx.plain k x hx' hkn
        · intro k hk
          obtain ⟨d, hd⟩ := Option.isSome_iff_exists.1 hk
          obtain ⟨x, hx', -⟩ := hx.old k d hd
          rw [hx']
          rfl
        · rcases free i hi with hi | rfl
          · exact hx.free i hi
          · have hm := (ho.after_mem h.slot).2 (by rw [at?_eq_some.1 he]; rfl)
            rcases List.mem_append.1 hm with hm | hm
            · obtain ⟨q, hq⟩ := Option.isSome_iff_exists.1 ((ho.before_mem _).1 hm)
              have hat := at?_of_cell hq
              obtain ⟨x, hx', -⟩ := hx.old _ _ hat
              have := eq_of_slot_eq hx' he (cell_handle_slot hq)
              rw [this, hn] at hat
              cases hat
            · exact ho.origin _ hm

/-! ## Everything given up -/

/-- `t` holds exactly the entries of `s`, with every field as it was, in the same allocation
order and under the same counters.  The free list may list the slots that temporary entries used
on the way. -/
structure Restored (s t : Store) : Prop where
  lookup : ∀ k, t.at? k = s.at? k
  bytes : t.bytes = s.bytes
  edges : t.edges = s.edges
  live : t.live = s.live
  first : t.first = s.first
  last : t.last = s.last
  work : t.work = s.work
  limits : t.limits = s.limits
  free : ∀ i ∈ t.free, i ∈ s.free ∨ s.slots.length ≤ i
  length : s.slots.length ≤ t.slots.length

lemma Reserved.restored (hr : Reserved s t) : Restored s t :=
  ⟨hr.at?, hr.bytes, hr.edges, hr.live, hr.first, hr.last, hr.work, hr.limits,
    fun _ hi => .inl (hr.free ▸ hi), by rw [hr.slots]⟩

/-- Added entries that nobody outside owns do not exist: the last of them would be owned by
nobody at all. -/
lemma Extends.no_more (hx : Extends marks s u) (hs : Inv own held s) (hu : Inv own held u)
    (hwu : u.work = []) {o f : List Nat} (ho : Continues s u o f) : f = [] := by
  rcases List.eq_nil_or_concat f with hf | ⟨f', z, hf⟩
  · exact hf
  · rw [List.concat_eq_append] at hf
    have hz : z ∈ o ++ f := by simp [hf]
    obtain ⟨q, hq⟩ := Option.isSome_iff_exists.1 ((ho.after_mem z).1 hz)
    have hqs := cell_handle_slot hq
    have hat := at?_of_cell hq
    have hnone : s.at? q.1 = none := by
      rcases hsq : s.at? q.1 with _ | d
      · rfl
      · have hzo : z ∈ o := (ho.before_mem z).2 (by rw [← hqs, at?_eq_some.1 hsq]; rfl)
        have := ho.after.nodup
        rw [List.nodup_append] at this
        exact absurd rfl (this.2.2 z hzo z (by simp [hf]))
    have hpos := hu.counts.alive _ _ hat
    have hb := hu.counts.balance q.1
    rw [strongAt_of_at? hat, hwu, refsIn_nil] at hb
    have hown := (hs.refs_eq_zero hnone).1
    obtain ⟨g, x, hg, hr⟩ := exists_of_total_pos (s := u) (φ := fun _ e => e.payload.refs q.1)
      (by change 0 < u.sum (·.refs q.1); omega)
    have hchild : Value.heap q.1 ∈ x.payload.children := mem_of_refsIn_pos hr
    rcases hsg : s.at? g with _ | d
    · -- An added entry refers only backwards, and `z` is the last.
      have hgf : g.slot ∈ f := by
        have := (ho.after_mem g.slot).2 (by rw [at?_eq_some.1 hg]; rfl)
        refine (List.mem_append.1 this).resolve_left fun hgo => ?_
        obtain ⟨c, hc⟩ := Option.isSome_iff_exists.1 ((ho.before_mem _).1 hgo)
        obtain ⟨y, hy, -⟩ := hx.old _ _ (at?_of_cell hc)
        have := eq_of_slot_eq hy hg (cell_handle_slot hc)
        have hc' := at?_of_cell hc
        rw [this, hsg] at hc'
        cases hc'
      obtain ⟨l, r, hlr⟩ := List.append_of_mem hgf
      have := ho.older l g.slot r hlr _ (at?_eq_some.1 hg) q.1 hchild
      refine absurd ?_ this
      rw [hqs]
      have hlast : (g.slot :: r).getLast? = some z := by
        have h1 : f.getLast? = some z := by simp [hf]
        rw [hlr, List.getLast?_append] at h1
        simpa using h1
      exact List.mem_of_getLast? hlast
    · obtain ⟨y, hy, hk⟩ := hx.old g d hsg
      obtain rfl := Option.some.inj (hg.symm.trans hy)
      rw [hk.payload] at hchild
      obtain ⟨c, hc⟩ := hs.child_live hsg hchild
      rw [hnone] at hc
      cases hc

/-- Once nothing of the partial result is owned, the store is as it was. -/
lemma Extends.restored (hx : Extends [] s u) (hs : Inv own held s) (hw : s.work = [])
    (hu : Inv own held u) (hwu : u.work = []) : Restored s u := by
  obtain ⟨o, f, ho⟩ := hx.order
  obtain rfl := hx.no_more hs hu hwu ho
  have hafter := ho.after
  have hmem := ho.after_mem
  rw [List.append_nil] at hafter hmem
  have hsu : ∀ k, (s.at? k).isSome = true → (u.at? k).isSome = true := fun k hk => by
    obtain ⟨e, he⟩ := Option.isSome_iff_exists.1 hk
    obtain ⟨x, hx', -⟩ := hx.old k e he
    rw [hx']
    rfl
  have hus : ∀ k, (u.at? k).isSome = true → (s.at? k).isSome = true := fun k hk => by
    obtain ⟨x, hxk⟩ := Option.isSome_iff_exists.1 hk
    have hko : k.slot ∈ o := (hmem _).2 (by rw [at?_eq_some.1 hxk]; rfl)
    obtain ⟨q, hq⟩ := Option.isSome_iff_exists.1 ((ho.before_mem _).1 hko)
    obtain ⟨y, hy, -⟩ := hx.old _ _ (at?_of_cell hq)
    rw [← eq_of_slot_eq hy hxk (cell_handle_slot hq), at?_of_cell hq]
    rfl
  have htotal : ∀ φ : Entry → Nat, (∀ e e', Kept false e e' → φ e = φ e') →
      s.total (fun _ e => φ e) = u.total (fun _ e => φ e) := fun φ hφ =>
    total_eq_of_lookup (fun k e he => by
      obtain ⟨x, hx', hk⟩ := hx.old k e he
      exact ⟨x, hx', hφ e x (by simpa using hk)⟩) hus
  have hsum : ∀ φ : Payload → Nat, s.sum φ = u.sum φ := fun φ =>
    htotal (fun e => φ e.payload) fun e e' hk => by rw [hk.payload]
  have hends : u.first = s.first ∧ u.last = s.last :=
    ⟨hafter.first_eq.trans ho.before.first_eq.symm, hafter.last_eq.trans ho.before.last_eq.symm⟩
  refine ⟨fun k => ?_, ?_, ?_, ?_, hends.1, hends.2, by rw [hw, hwu], hx.limits, hx.free, hx.length⟩
  · rcases hk : s.at? k with _ | e
    · rcases hku : u.at? k with _ | x
      · rfl
      · have := hus k (by rw [hku]; rfl)
        rw [hk] at this
        cases this
    · obtain ⟨x, hxk, hkept⟩ := hx.old k e hk
      have hlinks := ho.before.links_of_mem (hends.1 ▸ hends.2 ▸ hafter)
        ((ho.before_mem k.slot).2 (by rw [at?_eq_some.1 hk]; rfl))
      rw [prevOf, nextOf, prevOf, nextOf, at?_eq_some.1 hk, at?_eq_some.1 hxk] at hlinks
      have hb := hs.counts.balance k
      have hb' := hu.counts.balance k
      rw [strongAt_of_at? hk, hw] at hb
      rw [strongAt_of_at? hxk, hwu, ← hsum] at hb'
      have hpath := hkept.path
      simp only [List.not_mem_nil, decide_false, Bool.or_false] at hpath
      rw [hxk, Option.some.injEq]
      have hext : ∀ a b : Entry, a.previous = b.previous → a.next = b.next → a.strong = b.strong →
          a.readers = b.readers → a.chargedBytes = b.chargedBytes → a.clonePath = b.clonePath →
          a.payload = b.payload → a = b := by
        rintro ⟨⟩ ⟨⟩ rfl rfl rfl rfl rfl rfl rfl
        rfl
      exact hext _ _ hlinks.1 hlinks.2 (hb'.trans hb.symm) hkept.readers hkept.charged hpath
        hkept.payload
  · rw [hu.counts.bytes, hs.counts.bytes]
    exact (htotal (fun e => e.chargedBytes) fun e e' hk => hk.charged.symm).symm
  · rw [hu.counts.edges, hs.counts.edges, hsum]
  · rw [hu.counts.live, hs.counts.live]
    exact (htotal (fun _ => 1) fun e e' hk => rfl).symm

/-! ## Operations that undo what they built -/

/-- `m` returns with the references `give` handed to the caller and nothing pending, or fails
with everything restored. -/
def Undoes (own : Handle → Nat) (held : Option Hold) {α : Type} (give : α → Handle → Nat) (m : M α)
    (s : Store) : Prop :=
  wp m (fun a t => Inv (own + give a) held t ∧ t.work = [])
    (fun _ t => Inv own held t ∧ Restored s t) s

/-- `m` keeps the invariant: the caller gains the references `give` when it returns, and nothing
when it fails. -/
def Keeps (own : Handle → Nat) (held : Option Hold) {α : Type} (give : α → Handle → Nat) (m : M α)
    (s : Store) : Prop :=
  wp m (fun a t => Inv (own + give a) held t ∧ t.work = [])
    (fun _ t => Inv own held t ∧ t.work = []) s

variable {α : Type} {give : α → Handle → Nat} {m : M α}

lemma Undoes.keeps (hm : Undoes own held give m s) (hw : s.work = []) : Keeps own held give m s :=
  wp_mono hm (fun _ _ h => h) fun _ _ h => ⟨h.1, h.2.work.trans hw⟩

lemma Atomic.keeps (hm : Atomic own held give m s) (hi : Inv own held s) (hw : s.work = []) :
    Keeps own held give m s :=
  wp_mono hm (fun _ _ h => h) fun _ _ hr => ⟨hi.reserved hr, by rw [hr.work, hw]⟩

/-- An atomic operation has nothing to undo. -/
lemma Atomic.undoes (hm : Atomic own held give m s) (hi : Inv own held s) :
    Undoes own held give m s :=
  wp_mono hm (fun _ _ h => h) fun _ _ hr => ⟨hi.reserved hr, hr.restored⟩

/-- Admission beside the entries of `s`. -/
lemma admit_extends (hx : Extends marks s u) (hi : Inv own held u) (hp : p.Plain) :
    wp (admitPayload p)
      (fun r t => Inv (own + r.refs) held t ∧ t.work = u.work ∧ Extends marks s t)
      (fun _ t => Reserved u t) u := by
  refine wp_mono (admit_inv hi (.inr ⟨hp.lease, hp.exclusive⟩)) ?_ fun _ _ h => h
  rintro _ t ⟨h, rfl, ha, hit⟩
  exact ⟨hit, ha.fields.1, hx.admission hi ha hp⟩

/-- Releasing part of what was built beside the entries of `s`. -/
lemma release_extends {v : Value} (hx : Extends marks s u) (hs : Inv own held s) (hw : s.work = [])
    (hu : Inv (own' + v.refs) held u) (hown : ∀ k, own k ≤ own' k) :
    wp (release v) (fun _ t => Inv own' held t ∧ t.work = [] ∧ Extends marks s t)
      (fun _ _ => False) u :=
  release_follows (extends_follows hs hw hown) hu
    (fun d hd => (hs.held_owned d hd).trans (hown _)) hx

/-- Releasing the whole of it restores the store. -/
lemma rollback_spec {β : Type} {Q : β → Store → Prop} {v : Value} (hx : Extends [] s u)
    (hs : Inv own held s) (hw : s.work = []) (hu : Inv (own + v.refs) held u) (x : Error) :
    wp (rollback v x) Q (fun _ t => Inv own held t ∧ Restored s t) u := by
  refine wp_seq (release_extends hx hs hw hu fun _ => Nat.le_refl _) (fun _ _ h => h.elim) ?_
  rintro - t ⟨hit, hwt, hxt⟩
  exact ⟨hit, hxt.restored hs hw hit hwt⟩

lemma insertField_undoes (hi : Inv own held s) (hw : s.work = []) (receiver key new : Value) :
    Undoes own held Value.refs (insertField receiver key new) s := by
  have hself : Inv own held s ∧ Restored s s := ⟨hi, (Reserved.refl s).restored⟩
  refine wp_read_bind (fun _ _ => hself) fun index _ => wp_read_bind (fun _ _ => hself) fun fields _ => ?_
  have hbuild : ∀ success payload, wp (variant .option success payload)
      (fun r t => Inv (own + r.refs) held t ∧ t.work = s.work ∧ Extends [] s t)
      (fun _ t => Reserved s t) s := fun success payload =>
    wp_guardWith_bind (fun _ => .refl s) fun _ =>
      admit_extends (Extends.start hi.table) hi ⟨rfl, rfl⟩
  have hrest : ∀ (r : Value) (t : Store), Inv (own + r.refs) held t ∧ t.work = s.work ∧
      Extends [] s t → wp (insertWrapped receiver key new r)
        (fun r t => Inv (own + r.refs) held t ∧ t.work = [])
        (fun _ t => Inv own held t ∧ Restored s t) t := by
    rintro r t ⟨hit, hwt, hx⟩
    unfold insertWrapped
    rw [wp_bind, wp_attempt]
    refine wp_mono (setKey_atomic hit (hwt.trans hw) receiver (.dynamic key) new) ?_ ?_
    · rintro ⟨⟩ u ⟨hiu, hwu⟩
      exact ⟨by simpa using hiu, hwu⟩
    · intro x u hr
      exact rollback_spec (hx.reserved hr) hi hw (hit.reserved hr) x
  simp only
  split
  · exact wp_seq (hbuild _ _) (fun _ _ hr => ⟨hi.reserved hr, hr.restored⟩) hrest
  · exact wp_seq (hbuild _ _) (fun _ _ hr => ⟨hi.reserved hr, hr.restored⟩) hrest

/-- Taking a field out gives its reference up. -/
lemma exchanges_removed {tag : Ty} {fields : Buf (Text × Value)} {i : Nat} {key : Text}
    {old : Value} (ho : fields.items[i]? = some (key, old)) :
    Exchanges (.record tag fields) (.record tag (fields.remove i)) old .unit := by
  have hi : (fields.items.map Prod.snd)[i]? = some old := by
    rw [List.getElem?_map, ho]
    rfl
  have hs : (fields.remove i).items.map Prod.snd = (fields.items.map Prod.snd).eraseIdx i :=
    (List.eraseIdx_map ..).symm
  refine exchanges_plain ⟨rfl, rfl⟩ ⟨rfl, rfl⟩ (fun k => ?_) ?_
  · change refsIn ((fields.remove i).items.map Prod.snd) k + _ = refsIn (fields.items.map Prod.snd) k + 0
    rw [hs, Nat.add_zero]
    exact refsIn_eraseIdx hi k
  · change edgesIn ((fields.remove i).items.map Prod.snd) + _ = edgesIn (fields.items.map Prod.snd) + 0
    rw [hs, Nat.add_zero]
    exact edgesIn_eraseIdx hi

lemma removeField_undoes {fields : Buf (Text × Value)} (hi : Inv own held s) (hw : s.work = [])
    (hm : s.mutable h = .ok (.record .object fields)) (i : Nat) :
    Undoes own held Value.refs (removeField (.heap h) i) s := by
  have hself : Inv own held s ∧ Restored s s := ⟨hi, (Reserved.refl s).restored⟩
  obtain ⟨-, e, he, hread, hp, -⟩ := mutable_eq_ok.1 hm
  refine wp_read_bind (fun _ _ => hself) fun fields' hf => ?_
  have hfields : fields' = fields := by
    simp only [objectFields, Except.bind_eq_ok] at hf
    obtain ⟨q, hq, hf⟩ := hf
    obtain ⟨-, e', he', rfl, -⟩ := payload_eq_ok.1 hq
    obtain rfl := Option.some.inj (he.symm.trans he')
    rw [hp] at hf
    exact (Except.ok.inj hf).symm
  subst hfields
  split
  · next key old ho =>
    have hbuild : wp (variant .option true (some old))
        (fun r t => Inv (own + r.refs) held t ∧ t.work = s.work ∧ Extends [] s t)
        (fun _ t => Reserved s t) s :=
      wp_guardWith_bind (fun _ => .refl s) fun _ =>
        admit_extends (Extends.start hi.table) hi ⟨rfl, rfl⟩
    refine wp_seq hbuild (fun _ _ hr => ⟨hi.reserved hr, hr.restored⟩) ?_
    rintro r t ⟨hit, hwt, hx⟩
    obtain ⟨x, hxh, hkept⟩ := hx.old h e he
    have hpx : x.payload = .record .object fields' := hkept.payload.trans hp
    rw [wp_bind, wp_attempt]
    refine wp_read_bind (fun _ _ => rollback_spec hx hi hw hit _) fun y hy => ?_
    obtain ⟨-, hy⟩ := entry_eq_ok.1 hy
    obtain rfl := Option.some.inj (hxh.symm.trans hy)
    refine wp_ofExcept_bind (fun _ _ => rollback_spec hx hi hw hit _) fun charged _ => ?_
    refine wp_read_bind (fun _ _ => rollback_spec hx hi hw hit _) fun bytes hb => ?_
    obtain ⟨hb, hle⟩ := replacementBytes_eq_ok hb hxh
    refine wp_seq (replacementEdges_spec old .unit)
      (fun _ _ hr => rollback_spec (hx.reserved hr) hi hw (hit.reserved hr) _) ?_
    rintro n u ⟨hr, hn, hroom⟩
    have hiu := hit.reserved hr
    have hxu : u.at? h = some x := by rw [hr.at?]; exact hxh
    refine wp_read_bind (fun z hz => ?_) fun q hq => ?_
    · have : u.mutable h = .ok x.payload := mutable_eq_ok.2
        ⟨hiu.table.isOpen, x, hxu, by rw [hkept.readers, hread], rfl, by rw [hpx]; rfl⟩
      rw [this] at hz
      cases hz
    · obtain ⟨-, x', hx', -, rfl, -⟩ := mutable_eq_ok.1 hq
      obtain rfl := Option.some.inj (hxu.symm.trans hx')
      rw [hpx]
      simp only
      rw [setCharged, wp_update_bind]
      have h0 : (Value.unit).refs = 0 := refs_eq_zero_of_scalar rfl
      have hi0 : Inv (own + r.refs + Value.unit.refs) held (u.bump Value.unit.refs) := by
        rw [h0, bump_zero]
        exact hiu
      have hex := hi0.exchange (c := fun _ => charged) hit.held_owned hxu
        (hkept.readers.trans hread) hpx (exchanges_removed ho) (by rw [hr.edges]; exact hn)
        (by rw [hr.work]; omega) (by rw [hr.bytes]; exact hb) (by rw [hr.limits]; exact hle)
      rw [h0, bump_zero] at hex
      refine wp_seq (release_spec hex hit.held_owned) (fun _ _ h => h.elim) ?_
      rintro - w ⟨hiw, hww⟩
      exact ⟨hiw, hww⟩
  · exact hself

/-! ## The object methods -/

lemma argument_write {n : Nat} (ha : s.argument (.heap h) n .write = .ok ()) :
    ∃ p, s.mutable h = .ok p := by
  rcases hm : s.mutable h with x | p
  · simp [argument, hm, Except.map, Except.mapError] at ha
  · exact ⟨p, rfl⟩

lemma objectFields_eq_ok {v : Value} {fields : Buf (Text × Value)}
    (hf : s.objectFields v = .ok fields) :
    ∃ h, v = .heap h ∧ s.payload h = .ok (.record .object fields) := by
  unfold objectFields at hf
  split at hf
  · next h =>
    rw [Except.bind_eq_ok] at hf
    obtain ⟨q, hq, hf⟩ := hf
    split at hf
    · obtain rfl := Except.ok.inj hf
      exact ⟨h, rfl, hq⟩
    · cases hf
  · cases hf

/-- A receiver checked for writing whose fields can be read can be written. -/
lemma mutable_of_argument {v : Value} {n : Nat} {fields : Buf (Text × Value)}
    (ha : s.argument v n .write = .ok ()) (hf : s.objectFields v = .ok fields) :
    ∃ h, v = .heap h ∧ s.mutable h = .ok (.record .object fields) := by
  obtain ⟨h, rfl, hp⟩ := objectFields_eq_ok hf
  obtain ⟨p, hm⟩ := argument_write ha
  obtain ⟨-, e, he, -, rfl, -⟩ := mutable_eq_ok.1 hm
  obtain ⟨-, e', he', hpay, -⟩ := payload_eq_ok.1 hp
  obtain rfl := Option.some.inj (he.symm.trans he')
  exact ⟨h, rfl, hpay ▸ hm⟩

lemma keyIndex_eq_ok {receiver key : Value} {i : Option Nat}
    (hk : s.keyIndex receiver key = .ok i) :
    ∃ l fields, s.text key = .ok l ∧ s.objectFields receiver = .ok fields ∧
      i = fieldIndex fields.items l := by
  simp only [keyIndex, Except.bind_eq_ok] at hk
  obtain ⟨l, hl, fields, hf, hi⟩ := hk
  exact ⟨l, fields, hl, hf, (Except.ok.inj hi).symm⟩

lemma undoes_scalar {v : Value} (hi : Inv own held s) (hw : s.work = []) (hv : v.isHeap = false) :
    Undoes own held Value.refs (pure v) s := by
  refine ⟨?_, hw⟩
  rw [refs_eq_zero_of_scalar hv, add_zero]
  exact hi

/-- Every method of objects returns its result, or fails and leaves everything as it was. -/
lemma objectMethod_undoes (hi : Inv own held s) (hw : s.work = []) (method : ObjectMethod)
    (receiver key new : Value) :
    Undoes own held Value.refs (objectMethod method receiver key new) s := by
  have hself : Inv own held s ∧ Restored s s := ⟨hi, (Reserved.refl s).restored⟩
  have hvariant : ∀ success payload,
      Undoes own held Value.refs (variant .option success payload) s := fun success payload =>
    Atomic.undoes (variant_atomic hi hw (.refl s) .option success payload) hi
  refine wp_read_bind (fun _ _ => hself) fun tag _ => ?_
  split_ifs
  · cases method with
    | isEmpty =>
        refine wp_read_bind (fun _ _ => hself) fun _ _ => wp_read_bind (fun _ _ => hself) fun n _ => ?_
        exact undoes_scalar hi hw rfl
    | containsKey =>
        refine wp_read_bind (fun _ _ => hself) fun _ _ => wp_read_bind (fun _ _ => hself) fun _ _ => ?_
        exact wp_read_bind (fun _ _ => hself) fun i _ => undoes_scalar hi hw rfl
    | get =>
        refine wp_read_bind (fun _ _ => hself) fun _ _ => wp_read_bind (fun _ _ => hself) fun _ _ => ?_
        refine wp_read_bind (fun _ _ => hself) fun i _ => wp_read_bind (fun _ _ => hself) fun _ _ => ?_
        split
        · exact hvariant _ _
        · exact hvariant _ _
    | remove =>
        refine wp_read_bind (fun _ _ => hself) fun _ ha => wp_read_bind (fun _ _ => hself) fun _ _ => ?_
        refine wp_read_bind (fun _ _ => hself) fun i hk => ?_
        obtain ⟨l, fields, -, hf, -⟩ := keyIndex_eq_ok hk
        obtain ⟨h, rfl, hm⟩ := mutable_of_argument ha hf
        split
        · exact removeField_undoes hi hw hm _
        · exact hvariant _ _
    | insert =>
        refine wp_read_bind (fun _ _ => hself) fun _ _ => wp_read_bind (fun _ _ => hself) fun _ _ => ?_
        exact insertField_undoes hi hw receiver key new
  · exact wp_read_bind (fun _ _ => hself) fun x _ => hself

end Store

end Rnx
