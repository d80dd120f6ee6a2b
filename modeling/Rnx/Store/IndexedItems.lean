import Rnx.Store.ReversedItems

/-!
# Items and iteration

Three readings of one sequence: advancing an iterator, indexing a range as a comparison does, and
reading a reversed source by offsets.  The items that are indexed are those that advancing yields,
`indexed_items_agree`.
-/

namespace Rnx

open ErrState

namespace Store

open RangeKind (ordinal_eq toNat_valid)

variable {α : Type} {K : RangeKind α} {a c : α} {n k : Nat} {s : Store} {source : Value}

/-! ## Iterating -/

/-- Advancing an iterator yields `vs` in order and no item after them.  An element whose count of
references is full stops it: it fails as retaining the element does and consumes nothing. -/
def Iterates (it : Value) : List Value → Store → Prop
  | [], s => ∀ v, (iteratorNext it s).1 ≠ .ok (some v)
  | v :: vs, s =>
      (∃ t, iteratorNext it s = (.ok (some v), t) ∧ Iterates it vs t) ∨
        ∃ e, retain v s = (.error e, s) ∧ iteratorNext it s = (.error e, s)

lemma Iterates.of_yields {it : Value} {vs : List Value}
    (h : Yields (iteratorNext it) s vs (.ok none)) : Iterates it vs s := by
  induction vs generalizing s with
  | nil =>
      intro v hv
      have hnone : (iteratorNext it s).1 = .ok none := h 0
      rw [hnone] at hv
      cases hv
  | cons v vs ih => exact .inl ⟨_, Prod.ext h.head rfl, ih h.tail⟩

variable {h : Handle} {b : α}

/-- A payload that counts up to an end, which is not reached. -/
lemma yields_half_open (K : RangeKind α) {p : α → Payload} {b : α}
    (hend : ∀ s a, s.mutable h = .ok (p a) → K.place b ≤ K.place a →
      iteratorNext (.heap h) s = (.ok none, s))
    (hstep : ∀ s a c, s.mutable h = .ok (p a) → K.place a < K.place b → K.next a = some c →
      ∃ t, iteratorNext (.heap h) s = (.ok (some (K.value a)), t) ∧ t.mutable h = .ok (p c))
    (n : Nat) (a : α) (hn : n = (K.place b - K.place a).toNat) (hm : s.mutable h = .ok (p a)) :
    Yields (iteratorNext (.heap h)) s ((K.items n a).map K.value) (.ok none) := by
  induction n generalizing a s with
  | zero => exact Yields.still (hend s a hm (by omega))
  | succ n ih =>
      have htop := K.place_le_top b
      obtain ⟨c, hc, hplace⟩ := K.exists_next a (by omega)
      obtain ⟨t, hrun, ht⟩ := hstep s a c hm (by omega) hc
      rw [Counting.Line.items_succ hc]
      exact (ih c (by omega) ht).cons hrun

lemma yields_range {first finish : I64} (hm : s.mutable h = .ok (.rangeIterator first finish)) :
    Yields (iteratorNext (.heap h)) s
      ((RangeKind.signed.items (finish.val - first.val).toNat first).map Value.i64) (.ok none) := by
  apply yields_half_open RangeKind.signed (p := fun a => .rangeIterator a finish) ?_ ?_ _ _ rfl hm
  · intro s a hm hle
    unfold iteratorNext
    dsimp only
    rw [ErrState.run_bind (run_mutable hm)]
    dsimp only
    rw [if_pos (show a.val ≥ finish.val from hle)]
    rfl
  · intro s a c hm hlt hc
    refine ⟨_, ?_, mutable_modify hm rfl⟩
    unfold iteratorNext
    dsimp only
    rw [ErrState.run_bind (run_mutable hm)]
    dsimp only
    rw [if_neg (show ¬ a.val ≥ finish.val from not_le_of_gt hlt), show a.succ? = some c from hc]
    rfl

lemma yields_value_range {first finish : α}
    (hm : s.mutable h = .ok (.valueRangeIterator (K.value first) (K.value finish))) :
    Yields (iteratorNext (.heap h)) s
      ((K.items (K.place finish - K.place first).toNat first).map K.value) (.ok none) := by
  have hnext : ∀ s a, s.mutable h = .ok (.valueRangeIterator (K.value a) (K.value finish)) →
      iteratorNext (.heap h) s = valueRangeNext h (K.value a) (K.value finish) s := by
    intro s a hm
    unfold iteratorNext
    dsimp only
    rw [ErrState.run_bind (run_mutable hm)]
  apply yields_half_open K (p := fun a => .valueRangeIterator (K.value a) (K.value finish))
    ?_ ?_ _ _ rfl hm
  · intro s a hm hle
    rw [hnext s a hm]
    unfold valueRangeNext
    rw [K.range_eq, if_neg (not_lt_of_ge hle)]
    rfl
  · intro s a c hm hlt hc
    refine ⟨_, ?_, mutable_modify hm rfl⟩
    rw [hnext s a hm]
    unfold valueRangeNext
    rw [K.range_eq, if_pos hlt, hc]
    show (read (fun s => s.mutable h) >>= _) s = _
    rw [ErrState.run_bind (run_mutable hm)]
    rfl

lemma at?_bump_some {e : Entry} {k : Handle} (f : Handle → Nat) (he : s.at? k = some e) :
    (s.bump f).at? k = some { e with strong := e.strong + f k } := by
  rw [at?_bump, he]
  rfl

lemma mutable_bump {p : Payload} (f : Handle → Nat) (hm : s.mutable h = .ok p) :
    (s.bump f).mutable h = .ok p := by
  obtain ⟨hopen, e, he, hread, hp, hmoved⟩ := mutable_eq_ok.1 hm
  exact mutable_eq_ok.2 ⟨hopen, _, at?_bump_some f he, hread, hp, hmoved⟩

lemma payload_bump {p : Payload} {k : Handle} (f : Handle → Nat) (hp : s.payload k = .ok p) :
    (s.bump f).payload k = .ok p := by
  obtain ⟨hopen, e, he, hp, hmoved⟩ := payload_eq_ok.1 hp
  exact payload_eq_ok.2 ⟨hopen, _, at?_bump_some f he, hp, hmoved⟩

lemma payload_modify_of_ne {p q r : Payload} {k : Handle} (hm : s.mutable h = .ok p) (hk : k ≠ h)
    (hp : s.payload k = .ok r) :
    (s.modify h.slot fun e => { e with payload := q }).payload k = .ok r := by
  obtain ⟨-, e, he, -⟩ := mutable_eq_ok.1 hm
  obtain ⟨hopen, x, hx, hpx, hmoved⟩ := payload_eq_ok.1 hp
  exact payload_eq_ok.2 ⟨hopen, x, (at?_modify_of_ne he hk _).trans hx, hpx, hmoved⟩

/-- Retaining a value counts it, or leaves the store as it is. -/
lemma retain_cases (v : Value) (s : Store) :
    retain v s = (.ok (), s.bump v.refs) ∨ ∃ e, retain v s = (.error e, s) := by
  have hspec := retain_spec (s := s) v 0
  have hzero : s.bump 0 = s := bump_zero s
  rw [hzero, zero_add] at hspec
  unfold ErrState.wp at hspec
  rcases hrun : retain v s with ⟨e | x, t⟩
  · rw [hrun] at hspec
    exact .inr ⟨e, by rw [show t = s from hspec]⟩
  · rw [hrun] at hspec
    exact .inl (by rw [hspec.1])

variable {root : Handle} {tag : Ty} {values : Buf Value}

/-- A step of an iterator that leases a vector or a tuple. -/
lemma iteratorNext_list {index : Nat} (hm : s.mutable h = .ok (.vectorIterator ⟨root, index⟩))
    (hp : s.payload root = .ok (.list tag values)) (hindex : index ≠ values.items.length) :
    iteratorNext (.heap h) s = (do
      let value ← getElement (.heap root) index
      match ← ErrState.read fun s => s.mutable h with
      | .vectorIterator iter => do
          setPayload h (.vectorIterator { iter with index := iter.index + 1 })
          pure (some value)
      | _ => fail (err .type) : M (Option Value)) s := by
  have helement : iterElement root index s = getElement (.heap root) index s := by
    unfold iterElement
    rw [ErrState.run_bind (run_payload hp)]
  unfold iteratorNext
  dsimp only
  rw [ErrState.run_bind (run_mutable hm)]
  dsimp only
  rw [ErrState.run_bind (run_payload hp)]
  show (if index = values.items.length then _ else _ : M (Option Value)) s = _
  rw [if_neg hindex]
  exact ErrState.run_bind_congr helement

/-- The elements of a leased vector or tuple from an index on. -/
lemma iterates_list (vs : List Value) (index : Nat)
    (hvs : values.items.drop index = vs) (hm : s.mutable h = .ok (.vectorIterator ⟨root, index⟩))
    (hp : s.payload root = .ok (.list tag values)) : Iterates (.heap h) vs s := by
  induction vs generalizing s index with
  | nil =>
      intro v hv
      by_cases hindex : index = values.items.length
      · have hend : iteratorNext (.heap h) s = (.ok none, s) := by
          unfold iteratorNext
          dsimp only
          rw [ErrState.run_bind (run_mutable hm)]
          dsimp only
          rw [ErrState.run_bind (run_payload hp)]
          show (if index = values.items.length then _ else _ : M (Option Value)) s = _
          rw [if_pos hindex]
          rfl
        rw [hend] at hv
        cases hv
      · have hfails : getElement (.heap root) index s = (.error (err .indexOutOfBounds), s) := by
          unfold getElement
          dsimp only
          rw [ErrState.run_bind (run_payload hp)]
          dsimp only
          rw [← Nat.add_zero index, ← List.getElem?_drop, hvs]
          rfl
        rw [iteratorNext_list hm hp hindex, ErrState.run_bind_error hfails] at hv
        cases hv
  | cons v vs ih =>
      obtain ⟨hv, hrest⟩ := getElem?_of_drop hvs
      have hindex : index ≠ values.items.length := by
        rintro rfl
        rw [List.drop_length] at hvs
        cases hvs
      have helement : getElement (.heap root) index s = retained v s := by
        unfold getElement
        dsimp only
        rw [ErrState.run_bind (run_payload hp)]
        dsimp only
        rw [hv]
        rfl
      have hne : root ≠ h := by
        rintro rfl
        cases hp.symm.trans (payload_of_mutable hm)
      rcases retain_cases v s with hret | ⟨e, hret⟩
      · left
        have hm' := mutable_bump v.refs hm
        have hgot : getElement (.heap root) index s = (.ok v, s.bump v.refs) :=
          helement.trans (ErrState.run_bind hret)
        refine ⟨_, ?_, ih (index + 1) hrest (mutable_modify hm' rfl)
          (payload_modify_of_ne hm' hne (payload_bump _ hp))⟩
        rw [iteratorNext_list hm hp hindex, ErrState.run_bind hgot,
          ErrState.run_bind (run_mutable hm')]
        rfl
      · have hgot : getElement (.heap root) index s = (.error e, s) :=
          helement.trans (ErrState.run_bind_error hret)
        refine .inr ⟨e, hret, ?_⟩
        rw [iteratorNext_list hm hp hindex, ErrState.run_bind_error hgot]

/-- The value of an option, once. -/
lemma iterates_option {payload : Option Value} (hm : s.mutable h = .ok (.optionIterator payload))
    (hedges : edgesIn payload.toList ≤ s.edges) : Iterates (.heap h) payload.toList s := by
  have hrun : ∀ (s : Store) (payload : Option Value),
      s.mutable h = .ok (.optionIterator payload) → edgesIn payload.toList ≤ s.edges →
      ∃ t, iteratorNext (.heap h) s = (.ok payload, t) ∧ t.mutable h = .ok (.optionIterator none) := by
    intro s payload hm hedges
    have hm' := mutable_modify (q := .optionIterator none) hm rfl
    refine ⟨{ s.modify h.slot fun e => { e with payload := .optionIterator none } with
      edges := s.edges - edgesIn payload.toList }, ?_, hm'⟩
    unfold iteratorNext
    dsimp only
    rw [ErrState.run_bind (run_mutable hm)]
    dsimp only
    unfold optionNext
    rw [ErrState.run_bind (run_mutable hm)]
    dsimp only
    unfold setPayload setEdges
    rw [ErrState.run_update_bind, ErrState.run_get_bind]
    show (ofExcept (okOr (checkedSub s.edges (edgesIn payload.toList)) _) >>= _ : M (Option Value)) _ = _
    rw [checkedSub_of_le hedges]
    rfl
  obtain ⟨t, ht, hmt⟩ := hrun s payload hm hedges
  cases payload with
  | none =>
      intro v hv
      rw [ht] at hv
      cases hv
  | some v =>
      refine .inl ⟨t, ht, fun w hw => ?_⟩
      obtain ⟨u, hu, -⟩ := hrun t none hmt (Nat.zero_le _)
      rw [hu] at hw
      cases hw

/-! ## The counts of ranges -/

lemma countOf_signed (a b : I64) :
    countOf (if a.val < b.val then some (.wrap ((b.absDiff a).val - 1)) else none) =
      (b.val - a.val).toNat := by
  have ha := a.lower
  have hb := b.upper
  split_ifs with h
  · have hdiff := I64.absDiff_val (a := b) (b := a) (by omega)
    have := U64.wrap_val (n := (b.absDiff a).val - 1) (by omega) (by omega)
    show (U64.wrap _).val + 1 = _
    omega
  · show 0 = _
    omega

lemma countOf_unsigned (a b : U64) :
    countOf (if a.val < b.val then some (.wrap ((U64.wrap (b.val - a.val)).val - 1)) else none) =
      b.val - a.val := by
  have hb := b.upper
  split_ifs with h
  · have hdiff := U64.wrap_val (n := b.val - a.val) (by omega) (by omega)
    have := U64.wrap_val (n := (U64.wrap (b.val - a.val)).val - 1) (by omega) (by omega)
    show (U64.wrap _).val + 1 = _
    omega
  · show 0 = _
    omega

lemma countOf_signed_through (done : Bool) (a b : I64) :
    countOf (if done = false ∧ a.val ≤ b.val then some (b.absDiff a) else none) =
      if done then 0 else (b.val + 1 - a.val).toNat := by
  cases done with
  | true => rfl
  | false =>
      by_cases h : a.val ≤ b.val
      · rw [if_pos ⟨rfl, h⟩]
        have := I64.absDiff_val h
        show (b.absDiff a).val + 1 = (b.val + 1 - a.val).toNat
        omega
      · rw [if_neg fun hc => h hc.2]
        show 0 = (b.val + 1 - a.val).toNat
        omega

lemma countOf_unsigned_through (done : Bool) (a b : U64) :
    countOf (if done = false ∧ a.val ≤ b.val then some (.wrap (b.val - a.val)) else none) =
      if done then 0 else b.val + 1 - a.val := by
  have hb := b.upper
  cases done with
  | true => rfl
  | false =>
      by_cases h : a.val ≤ b.val
      · rw [if_pos ⟨rfl, h⟩]
        have := U64.wrap_val (n := b.val - a.val) (by omega) (by omega)
        show (U64.wrap (b.val - a.val)).val + 1 = b.val + 1 - a.val
        omega
      · rw [if_neg fun hc => h hc.2]
        show 0 = b.val + 1 - a.val
        omega

lemma charCount_through (done : Bool) (a b : Char) :
    (if done = true ∨ a.toNat > b.toNat then U64.wrap 0
      else .wrap ((charCount a b).val + 1)).val =
      if done then 0 else (b.ordinal : Nat) + 1 - a.ordinal := by
  cases done with
  | true => rfl
  | false =>
      have hb : (b.ordinal : Nat) < 1112064 := b.ordinal.isLt
      by_cases h : a.toNat > b.toNat
      · have := Char.lt_iff_ordinal_lt.1 (show b < a from h)
        rw [if_pos (.inr h)]
        show 0 = (b.ordinal : Nat) + 1 - a.ordinal
        omega
      · have hle : (a.ordinal : Nat) ≤ b.ordinal :=
          Char.le_iff_ordinal_le.1 (show a ≤ b from Nat.le_of_not_lt h)
        have hcount := charCount_val a b
        have := U64.wrap_val (n := (charCount a b).val + 1) (by omega) (by omega)
        rw [if_neg (by simpa using h)]
        show (U64.wrap _).val = (b.ordinal : Nat) + 1 - a.ordinal
        omega

/-! ## What is read is what iterating comes to -/

/-- Where the iterator can be advanced at all, it yields the items that are read. -/
def ReadsIterated (s : Store) (h : Handle) (vs : List Value) : Prop :=
  Reads s (.heap h) vs ∧ ∀ p, s.mutable h = .ok p → Iterates (.heap h) vs s

lemma mutable_of_payload {p q : Payload} (hp : s.payload h = .ok p) (hm : s.mutable h = .ok q) :
    s.mutable h = .ok p := by
  rw [hm, ← payload_of_mutable hm, hp]

/-- A cursor with an end, in whatever state. -/
lemma iterates_cursor {source : Option Handle} {done : Bool} {n : Nat}
    (hm : s.mutable h = .ok (cursorPayload source ⟨K.value a, some (K.value b), done⟩))
    (hn : n = if done then 0 else (K.place b + 1 - K.place a).toNat) :
    Iterates (.heap h) ((K.items n a).map K.value) s := by
  apply Iterates.of_yields
  cases done with
  | true =>
      subst hn
      exact (yields_of_cursor hm (Yields.still (cursorCall_done _ _))).2
  | false => exact (yields_of_cursor hm (yields_closed K n a b hn)).2

lemma readsIterated_cursor {source : Option Handle} {next finish : Value} {done : Bool}
    {r : Reversed} (hp : s.payload h = .ok (cursorPayload source ⟨next, some finish, done⟩))
    (hr : s.reversed (.heap h) = .ok r) : ∃ vs, ReadsIterated s h vs := by
  have hr' := hr
  unfold reversed at hr'
  dsimp only at hr'
  rw [hp] at hr'
  dsimp only [cursorPayload, bind, Except.bind] at hr'
  split at hr'
  · rename_i a b
    obtain rfl := Except.ok.inj hr'
    have ha := a.lower
    have hb := b.upper
    have hcount := countOf_signed_through done a b
    refine ⟨_, reads_signed hr ?_, fun p hm => ?_⟩
    · rw [hcount]
      have := a.upper
      split_ifs <;> omega
    · exact iterates_cursor (K := RangeKind.signed) (mutable_of_payload hp hm) hcount
  · rename_i a b
    obtain rfl := Except.ok.inj hr'
    have hb := b.upper
    have hcount := countOf_unsigned_through done a b
    refine ⟨_, reads_unsigned hr ?_, fun p hm => ?_⟩
    · rw [hcount]
      have := a.upper
      split_ifs <;> omega
    · refine iterates_cursor (K := RangeKind.unsigned) (mutable_of_payload hp hm) ?_
      rw [hcount]
      show _ = if done = true then 0 else ((b.val : Int) + 1 - a.val).toNat
      split_ifs <;> omega
  · rename_i a b
    obtain rfl := Except.ok.inj hr'
    have hb : (b.ordinal : Nat) < 1112064 := b.ordinal.isLt
    have hcount := charCount_through done a b
    refine ⟨_, reads_char hr ?_, fun p hm => ?_⟩
    · rw [hcount]
      have : (a.ordinal : Nat) < 1112064 := a.ordinal.isLt
      split_ifs <;> omega
    · refine iterates_cursor (K := RangeKind.char) (mutable_of_payload hp hm) ?_
      rw [hcount]
      show _ = if done = true then 0 else (((b.ordinal : Nat) : Int) + 1 - (a.ordinal : Nat)).toNat
      split_ifs <;> omega
  · cases hr'

lemma readsIterated_value_range {next finish : Value} {r : Reversed}
    (hp : s.payload h = .ok (.valueRangeIterator next finish))
    (hr : s.reversed (.heap h) = .ok r) : ∃ vs, ReadsIterated s h vs := by
  have hr' := hr
  unfold reversed at hr'
  dsimp only at hr'
  rw [hp] at hr'
  dsimp only [bind, Except.bind] at hr'
  split at hr'
  · rename_i a b
    obtain rfl := Except.ok.inj hr'
    have ha := a.upper
    have hb := b.upper
    refine ⟨_, reads_signed hr ?_, fun p hm => .of_yields ?_⟩
    · rw [countOf_signed]
      omega
    · rw [countOf_signed]
      exact yields_value_range (K := RangeKind.signed) (mutable_of_payload hp hm)
  · rename_i a b
    obtain rfl := Except.ok.inj hr'
    have ha := a.upper
    have hb := b.upper
    refine ⟨_, reads_unsigned hr ?_, fun p hm => .of_yields ?_⟩
    · rw [countOf_unsigned]
      omega
    · have hplaces : b.val - a.val =
          (RangeKind.unsigned.place b - RangeKind.unsigned.place a).toNat := by
        show _ = ((b.val : Int) - a.val).toNat
        omega
      rw [countOf_unsigned, hplaces]
      exact yields_value_range (K := RangeKind.unsigned) (mutable_of_payload hp hm)
  · rename_i a b
    obtain rfl := Except.ok.inj hr'
    have ha : (a.ordinal : Nat) < 1112064 := a.ordinal.isLt
    have hb : (b.ordinal : Nat) < 1112064 := b.ordinal.isLt
    refine ⟨_, reads_char hr ?_, fun p hm => .of_yields ?_⟩
    · rw [charCount_val]
      omega
    · have hplaces : (b.ordinal : Nat) - a.ordinal =
          (RangeKind.char.place b - RangeKind.char.place a).toNat := by
        show _ = (((b.ordinal : Nat) : Int) - (a.ordinal : Nat)).toNat
        omega
      rw [charCount_val, hplaces]
      exact yields_value_range (K := RangeKind.char) (mutable_of_payload hp hm)
  · cases hr'

/-- What is read of a reversed source is what iterating it comes to. -/
lemma readsIterated_of_reversed {own : Handle → Nat} {held : Option Hold} {r : Reversed}
    (hi : Inv own held s) (hr : s.reversed (.heap h) = .ok r) : ∃ vs, ReadsIterated s h vs := by
  have hr' := hr
  unfold reversed at hr'
  dsimp only at hr'
  obtain ⟨p, hp, hr'⟩ := Except.bind_eq_ok.1 hr'
  split at hr'
  · rename_i iter
    obtain ⟨q, hq, hr'⟩ := Except.bind_eq_ok.1 hr'
    split at hr'
    · obtain rfl := Except.ok.inj hr'
      exact ⟨_, reads_list hq hr, fun p hm =>
        iterates_list _ _ rfl (mutable_of_payload hp hm) hq⟩
    · obtain ⟨e, -, he⟩ := Except.bind_eq_ok.1 hr'
      cases he
  · rename_i payload
    obtain rfl := Except.ok.inj hr'
    obtain ⟨-, e, he, hpe, -⟩ := payload_eq_ok.1 hp
    refine ⟨_, reads_option hr, fun p hm => iterates_option (mutable_of_payload hp hm) ?_⟩
    have hsum := le_sum Payload.edges he
    have hcount := hi.counts.edges
    rw [hpe] at hsum
    change edgesIn payload.toList ≤ _ at hsum
    omega
  · rename_i next finish
    obtain rfl := Except.ok.inj hr'
    have hlower := next.upper
    have hupper := finish.upper
    refine ⟨_, reads_signed hr ?_, fun p hm => .of_yields ?_⟩
    · rw [countOf_signed]
      omega
    · rw [countOf_signed]
      exact yields_range (mutable_of_payload hp hm)
  · exact readsIterated_value_range hp hr
  · rename_i source cursor
    obtain ⟨next, finish, done⟩ := cursor
    cases finish with
    | none =>
        obtain ⟨e, -, he⟩ := Except.bind_eq_ok.1 hr'
        cases he
    | some finish => exact readsIterated_cursor hp hr
  · cases hr'

/-! ## The items of a half-open range -/

variable {own : Handle → Nat} {held : Option Hold} {t : Store}

/-- A payload that was admitted can be written. -/
lemma admit_mutable {p : Payload} {it : Value} (hi : Inv own held s)
    (hp : p.lease = none ∧ p.exclusive = none) (hmoved : p.isMoved = false)
    (hrun : admitPayload p s = (.ok it, t)) : ∃ k, it = .heap k ∧ t.mutable k = .ok p := by
  obtain ⟨k, rfl, hadmission, hit⟩ := (wp_run hrun (admit_inv hi (.inr hp))).1 it rfl
  obtain ⟨charged, -, hnew⟩ := hadmission.lookup_new hi.table
  exact ⟨k, rfl, mutable_eq_ok.2 ⟨hit.table.isOpen, _, hnew, rfl, rfl, hmoved⟩⟩

lemma get_range (first finish : I64) (n : Nat) :
    (Sequence.range first finish).get n =
      ((RangeKind.signed.items (finish.val - first.val).toNat first).map Value.i64)[n]?.map
        Item.value := by
  have hlower := first.lower
  have hupper := finish.upper
  have hroom : RangeKind.signed.place first + (finish.val - first.val).toNat ≤
      RangeKind.signed.place RangeKind.signed.top + 1 := by
    show first.val + _ ≤ (2 ^ 63 - 1 : Int) + 1
    have := first.upper
    omega
  dsimp only [Sequence.get]
  split_ifs with hend
  · rw [show (Value.i64 : I64 → Value) = RangeKind.signed.value from rfl,
      read_past hroom (by omega)]
    rfl
  · have hnext := I64.ofInt?_eq_some (n := first.val + n) (a := ⟨first.val + n, by omega, by omega⟩)
    rw [hnext.2 rfl, show (Value.i64 : I64 → Value) = RangeKind.signed.value from rfl,
      read_item (c := ⟨first.val + n, by omega, by omega⟩) hroom (by omega) rfl]
    rfl

lemma get_unsignedRange (first finish : U64) (n : Nat) :
    (Sequence.unsignedRange first finish).get n =
      ((RangeKind.unsigned.items (finish.val - first.val) first).map Value.u64)[n]?.map
        Item.value := by
  have hupper := finish.upper
  have hroom : RangeKind.unsigned.place first + (finish.val - first.val : Nat) ≤
      RangeKind.unsigned.place RangeKind.unsigned.top + 1 := by
    show (first.val : Int) + _ ≤ ((2 ^ 64 - 1 : Nat) : Int) + 1
    have := first.upper
    omega
  dsimp only [Sequence.get]
  split_ifs with hend
  · rw [show (Value.u64 : U64 → Value) = RangeKind.unsigned.value from rfl,
      read_past hroom (by omega)]
    rfl
  · have hnext := U64.ofNat?_eq_some (n := first.val + n) (a := ⟨first.val + n, by omega⟩)
    rw [hnext.2 rfl, show (Value.u64 : U64 → Value) = RangeKind.unsigned.value from rfl,
      read_item (c := ⟨first.val + n, by omega⟩) hroom (by omega) (Int.natCast_add _ _)]
    rfl

lemma get_charRange_items (first finish : Char) (n : Nat) :
    (Sequence.charRange first finish).get n =
      ((RangeKind.char.items ((finish.ordinal : Nat) - first.ordinal) first).map Value.char)[n]?.map
        Item.value := by
  have hfirst := toNat_valid first
  have hfinish := toNat_valid finish
  have hofirst := ordinal_eq first
  have hofinish := ordinal_eq finish
  have hlt : (finish.ordinal : Nat) < 1112064 := finish.ordinal.isLt
  have hroom : RangeKind.char.place first + ((finish.ordinal : Nat) - first.ordinal : Nat) ≤
      RangeKind.char.place RangeKind.char.top + 1 := by
    rw [topOrdinal]
    show ((first.ordinal : Nat) : Int) + _ ≤ _
    have : (first.ordinal : Nat) < 1112064 := first.ordinal.isLt
    omega
  rw [show (Value.char : Char → Value) = RangeKind.char.value from rfl]
  dsimp only [Sequence.get]
  by_cases hn : n < (finish.ordinal : Nat) - first.ordinal
  · obtain ⟨c, hordinal, hcode⟩ := exists_char_offset first (k := n) (by omega)
    have hplace : RangeKind.char.place c = RangeKind.char.place first + n := by
      show ((c.ordinal : Nat) : Int) = ((first.ordinal : Nat) : Int) + n
      omega
    have hbefore : c.toNat < finish.toNat :=
      RangeKind.ordinal_lt.1 (by omega : ((c.ordinal : Nat) : Int) < ((finish.ordinal : Nat) : Int))
    have hmax : usizeMax = 2 ^ 64 - 1 := rfl
    rw [read_item hroom hn hplace, charOffset_eq (by omega), ← hcode]
    show (if c.toNat ≥ finish.toNat then none else _) = _
    rw [if_neg (Nat.not_le_of_lt hbefore), charFromU32_toNat]
    rfl
  · rw [read_past hroom hn]
    rcases hoffset : charOffset first n with _ | value
    · rfl
    · have := charOffset_eq_some hoffset
      exact if_pos (by split_ifs at this hofirst hofinish <;> omega)

/-- The ranges that a comparison reads item by item. -/
def HalfOpen : Payload → Prop
  | .range .. | .valueRange .. => True
  | _ => False

/-- The items of a half-open range by their indices are those that its iterator yields. -/
lemma get_iterated {p : Payload} {q : Sequence} {it : Value} (hi : Inv own held s)
    (hp : s.payload h = .ok p) (hhalf : HalfOpen p)
    (hq : s.iterableView (.value (.heap h)) = .ok q) (hrun : iterator (.heap h) s = (.ok it, t)) :
    ∃ vs, Yields (iteratorNext it) t vs (.ok none) ∧ ∀ n, q.get n = vs[n]?.map Item.value := by
  obtain ⟨hopen, e, he, rfl, hmoved⟩ := payload_eq_ok.1 hp
  have hentry : (ErrState.read fun s => s.entry h : M Entry) s = (.ok e, s) :=
    Prod.ext (entry_eq_ok.2 ⟨hopen, he⟩) rfl
  have hplain : isIterator e.payload = false := by
    cases hpe : e.payload with
    | range first finish => rfl
    | valueRange first finish => rfl
    | _ =>
        rw [hpe] at hhalf
        exact hhalf.elim
  have hbegin : iterator (.heap h) s = _ := ErrState.run_bind hentry
  rw [hplain, if_neg Bool.false_ne_true, ErrState.run_bind (run_payload hp)] at hbegin
  rw [hbegin] at hrun
  unfold iterableView itemPayload at hq
  dsimp only at hq
  rw [hp] at hq
  dsimp only [Except.map, bind, Except.bind] at hq
  cases hpe : e.payload with
  | range first finish =>
      rw [hpe] at hq hrun
      obtain rfl := Except.ok.inj hq
      obtain ⟨k, rfl, hm⟩ := admit_mutable hi ⟨rfl, rfl⟩ rfl hrun
      exact ⟨_, yields_range hm, get_range first finish⟩
  | valueRange start finish =>
      rw [hpe] at hq hrun
      dsimp only at hq hrun
      rcases hbounds : s.rangeIterationBounds start finish with x | ⟨first, last⟩
      · rw [hbounds] at hq
        cases hq
      · have hread : (ErrState.read fun s => s.rangeIterationBounds start finish :
            M (Value × Value)) s = (.ok (first, last), s) := Prod.ext hbounds rfl
        rw [ErrState.run_bind hread] at hrun
        obtain ⟨k, rfl, hm⟩ := admit_mutable hi ⟨rfl, rfl⟩ rfl hrun
        rw [hbounds] at hq
        dsimp only at hq
        split at hq
        · rename_i a b hab
          obtain ⟨rfl, rfl⟩ := Prod.mk.inj hab
          obtain rfl := Except.ok.inj hq
          exact ⟨_, yields_value_range (K := RangeKind.signed) hm, get_range a b⟩
        · rename_i a b hab
          obtain ⟨rfl, rfl⟩ := Prod.mk.inj hab
          obtain rfl := Except.ok.inj hq
          have hplaces : (RangeKind.unsigned.place b - RangeKind.unsigned.place a).toNat =
              b.val - a.val := by
            show ((b.val : Int) - a.val).toNat = _
            omega
          refine ⟨_, yields_value_range (K := RangeKind.unsigned) hm, ?_⟩
          rw [hplaces]
          exact get_unsignedRange a b
        · rename_i a b hab
          obtain ⟨rfl, rfl⟩ := Prod.mk.inj hab
          obtain rfl := Except.ok.inj hq
          have hplaces : (RangeKind.char.place b - RangeKind.char.place a).toNat =
              (b.ordinal : Nat) - a.ordinal := by
            show (((b.ordinal : Nat) : Int) - (a.ordinal : Nat)).toNat = _
            omega
          refine ⟨_, yields_value_range (K := RangeKind.char) hm, ?_⟩
          rw [hplaces]
          exact get_charRange_items a b
        · cases hq
  | _ =>
      rw [hpe] at hhalf
      exact hhalf.elim

/-- In every store that can be reached, the items of a half-open range by their indices are those
that its iterator yields, and a reversed source reads what is left of its iteration: whether there
is any item, how many there are, and each of them. -/
theorem indexed_items_agree (hr : Reach own s) (h : Handle) :
    (∀ p q it t, s.payload h = .ok p → HalfOpen p → s.iterableView (.value (.heap h)) = .ok q →
      iterator (.heap h) s = (.ok it, t) →
        ∃ vs, Yields (iteratorNext it) t vs (.ok none) ∧ ∀ n, q.get n = vs[n]?.map Item.value) ∧
    ∀ r, s.reversed (.heap h) = .ok r → ∃ vs, ReadsIterated s h vs :=
  ⟨fun _ _ _ _ hp hhalf hq hrun => get_iterated (reach_inv hr).1 hp hhalf hq hrun,
    fun _ hrev => readsIterated_of_reversed (reach_inv hr).1 hrev⟩

/-- A range that ends at an integer. -/
def upTo (finish : I64) : Store := (Call.range (.ofNat 0 (by decide)) finish).after roomy

/-- An iterator over the range. -/
def iteratingUpTo (finish : I64) : Store := (Call.iterator (.heap ⟨0, 1⟩)).after (upTo finish)

def two : I64 := .ofNat 2 (by decide)

lemma reach_upTo : Reach (0 - 0 + optionRefs (some (.heap ⟨0, 1⟩))) (upTo two) :=
  have hcreated : Store.new 1 ⟨4, 400⟩ noNominals (fun _ => true) = .ok roomy := rfl
  (Reach.new hcreated).returned (c := .range (.ofNat 0 (by decide)) two)
    (r := some (.heap ⟨0, 1⟩)) trivial rfl

lemma reach_iterating : Reach (0 - 0 + optionRefs (some (.heap ⟨0, 1⟩)) - 0 +
    optionRefs (some (.heap ⟨1, 1⟩))) (iteratingUpTo two) :=
  reach_upTo.returned (c := .iterator (.heap ⟨0, 1⟩)) (r := some (.heap ⟨1, 1⟩)) trivial rfl

/-- The range of two integers, and its iterator. -/
theorem indexed_items_agree_two :
    (∃ vs, Yields (iteratorNext (.heap ⟨2, 1⟩))
        ((Call.iterator (.heap ⟨0, 1⟩)).after (iteratingUpTo two)) vs (.ok none) ∧
      ∀ n, (Sequence.range (.ofNat 0 (by decide)) two).get n = vs[n]?.map Item.value) ∧
    ∃ vs, ReadsIterated (iteratingUpTo two) ⟨1, 1⟩ vs :=
  ⟨(indexed_items_agree reach_iterating ⟨0, 1⟩).1 (.range (.ofNat 0 (by decide)) two)
      (.range (.ofNat 0 (by decide)) two) (.heap ⟨2, 1⟩) _ rfl trivial rfl rfl,
    (indexed_items_agree reach_iterating ⟨1, 1⟩).2 (.signed (.ofNat 0 (by decide)) (some (.wrap 1))) rfl⟩

/-- The last offset of an empty source is zero, and no item is left. -/
theorem empty_rev_last : ¬ ∀ n vs,
    (iteratingUpTo (.ofNat 0 (by decide))).revLast (.heap ⟨1, 1⟩) = .ok n →
      Iterates (.heap ⟨1, 1⟩) vs (iteratingUpTo (.ofNat 0 (by decide))) → n + 1 = vs.length := by
  intro hclaim
  have hend : (iteratorNext (.heap ⟨1, 1⟩) (iteratingUpTo (.ofNat 0 (by decide)))).1 = .ok none := rfl
  have hempty : Iterates (.heap ⟨1, 1⟩) [] (iteratingUpTo (.ofNat 0 (by decide))) := by
    intro v hv
    rw [hend] at hv
    cases hv
  have := hclaim 0 [] rfl hempty
  cases this

end Store

end Rnx
