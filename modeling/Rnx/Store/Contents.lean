import Rnx.Store.Exchange

/-!
# What a program finds in an entry

A vector that is being sorted has lent its elements to the guard that sorts it; what a program finds
in the vector is what the guard holds for it.  Read that way, giving references up changes nothing
but which entries there are: a guard that is freed gives the elements back.

* `ReleaseStep.contents`: one release leaves the contents of the entries that stay.
* `release_contents`: so does the cascade of a release.
* `replaceChild_contents`: an exchange rewrites one entry and leaves the others.
-/

namespace Rnx

open ErrState

namespace Store

variable {s t u : Store} {h k : Handle} {e : Entry} {own : Handle → Nat}

/-- The elements the entry of a cell holds for the vector `k`. -/
def loan (c : Handle × Entry) (k : Handle) : Option (Buf Value) :=
  c.2.payload.restores.bind fun r => if r.1 = k then some r.2 else none

/-- The elements a sort holds for the vector `k`. -/
def lent (s : Store) (k : Handle) : Option (Buf Value) :=
  (List.range s.slots.length).findSome? fun i => (s.cell i).bind (loan · k)

/-- What a program finds in an entry. -/
def contents (s : Store) (k : Handle) : Option Payload :=
  (s.at? k).map fun e => (s.lent k).elim e.payload (.list .vec)

/-! ## Loans -/

lemma restores_eq_some {p : Payload} {values : Buf Value} (hp : p.restores = some (k, values)) :
    p.exclusive = some k := by
  cases p with
  | sortGuard st =>
      simp only [Payload.restores] at hp
      split_ifs at hp with ha
      obtain ⟨rfl, rfl⟩ := Prod.mk.inj (Option.some.inj hp)
      simp [Payload.exclusive, ha]
  | _ => cases hp

lemma loan_eq_none {c : Handle × Entry} (hc : c.2.payload.restores = none) : loan c k = none := by
  simp [loan, hc]

lemma loan_eq_some {c : Handle × Entry} {values : Buf Value} :
    loan c k = some values ↔ c.2.payload.restores = some (k, values) := by
  unfold loan
  rw [Option.bind_eq_some_iff]
  constructor
  · rintro ⟨r, hr, hk⟩
    split_ifs at hk with hrk
    obtain rfl := Option.some.inj hk
    rw [hr, ← hrk]
  · intro hr
    exact ⟨_, hr, if_pos rfl⟩

/-- Stores whose cells lend the same have lent the same. -/
lemma lent_congr (hlen : t.slots.length = s.slots.length)
    (hc : ∀ i, (t.cell i).bind (loan · k) = (s.cell i).bind (loan · k)) : t.lent k = s.lent k := by
  unfold lent
  rw [hlen]
  simp only [hc]

/-- An entry without readers has lent nothing. -/
lemma lent_eq_none (hi : Inv own none s) (hk : s.at? k = some e) (hr : e.readers = 0) :
    s.lent k = none := by
  unfold lent
  rw [List.findSome?_eq_none_iff]
  intro i _
  rcases hc : s.cell i with _ | c
  · rfl
  · rw [Option.bind_some, ← Option.not_isSome_iff_eq_none]
    intro hl
    obtain ⟨values, hl⟩ := Option.isSome_iff_exists.1 hl
    have hx := restores_eq_some (loan_eq_some.1 hl)
    have hle := le_sum (·.holds k) (at?_of_cell hc)
    have hone : c.2.payload.holds k = 1 := if_pos hx
    rcases hi.leases k e hk with ⟨h0, -, -⟩ | ⟨-, -, hex, -⟩
    · omega
    · rw [hr] at hex
      cases hex

/-- One cell that lends, and no other: that is what is lent. -/
lemma lent_eq_of_single {i : Nat} {c : Handle × Entry} {values : Buf Value}
    (hc : s.cell i = some c) (hl : loan c k = some values)
    (hrest : ∀ j, j ≠ i → (s.cell j).bind (loan · k) = none) : s.lent k = some values := by
  have hlt : i < s.slots.length := slot_lt (by rw [hc]; rfl)
  unfold lent
  rcases hf : (List.range s.slots.length).findSome? fun i => (s.cell i).bind (loan · k)
    with _ | vs
  · rw [List.findSome?_eq_none_iff] at hf
    have := hf i (List.mem_range.2 hlt)
    rw [hc, Option.bind_some, hl] at this
    cases this
  · obtain ⟨j, -, hj⟩ := List.exists_of_findSome?_eq_some hf
    rcases Decidable.em (j = i) with rfl | hne
    · rw [hc, Option.bind_some, hl] at hj
      exact hj.symm
    · rw [hrest j hne] at hj
      cases hj

/-! ## Releasing -/

/-- The payload of an entry another release retired. -/
lemma survivor_payload (hi : Inv own none s) {d x : Entry} (hd : s.at? h = some d)
    (hx : s.at? k = some x) :
    (survivor d k x).payload = ((d.payload.restores.bind fun r => if r.1 = k then some r.2 else none).elim
      x.payload (.list .vec)) ∧
      ((d.payload.restores.bind fun r => if r.1 = k then some r.2 else none).isSome = true →
        x.payload = .moved .vec ∧ (survivor d k x).readers = 0) := by
  rcases hr : d.payload.restores with _ | ⟨m, values⟩
  · refine ⟨?_, fun hn => by cases hn⟩
    simp [survivor, settle, hr, relinked]
  · by_cases hm : m = k
    · subst hm
      have hex := restores_eq_some hr
      have hle := le_sum (·.holds m) hd
      have hone : d.payload.holds m = 1 := if_pos hex
      refine ⟨by simp [survivor, settle, hr], fun _ => ?_⟩
      rcases hi.leases m x hx with ⟨h0, -, -⟩ | ⟨-, -, -, hp⟩
      · omega
      · exact ⟨hp, by simp [survivor, settle, hex]⟩
    · refine ⟨by simp [survivor, settle, hr, hm, relinked], fun hn => ?_⟩
      simp [hm] at hn

/-- A cell of the store a retirement leaves is a survivor's. -/
lemma cell_survivor {d : Entry} {i : Nat}
    (others : ∀ k, k ≠ h → t.at? k = (s.at? k).map (survivor d k)) (hi : i ≠ h.slot) :
    t.cell i = (s.cell i).map fun c => (c.1, survivor d c.1 c.2) := by
  rcases hc : s.cell i with _ | c
  · rcases ht : t.cell i with _ | c'
    · rfl
    · have hat := at?_of_cell ht
      have hne : c'.1 ≠ h := by
        intro he
        exact hi (by rw [← cell_handle_slot ht, he])
      rw [others _ hne, Option.map_eq_some_iff] at hat
      obtain ⟨x, hx, -⟩ := hat
      rw [at?_eq_some, cell_handle_slot ht, hc] at hx
      cases hx
  · have hat := at?_of_cell hc
    have hne : c.1 ≠ h := by
      intro he
      exact hi (by rw [← cell_handle_slot hc, he])
    have ht : t.at? c.1 = some (survivor d c.1 c.2) := by rw [others _ hne, hat]; rfl
    rw [at?_eq_some, cell_handle_slot hc] at ht
    exact ht

/-- The slot of a retired entry is vacant. -/
lemma cell_retired {d : Entry} (hd : s.at? h = some d) (gone : t.at? h = none)
    (others : ∀ k, k ≠ h → t.at? k = (s.at? k).map (survivor d k)) : t.cell h.slot = none := by
  rcases ht : t.cell h.slot with _ | c
  · rfl
  · have hat := at?_of_cell ht
    have hne : c.1 ≠ h := by
      intro he
      rw [he, gone] at hat
      cases hat
    rw [others _ hne, Option.map_eq_some_iff] at hat
    obtain ⟨x, hx, -⟩ := hat
    exact (hne (eq_of_slot_eq hx hd (cell_handle_slot ht))).elim

/-- What a program finds in `k` is what it found before, and no sort of `k` has begun. -/
structure SameContents (s t : Store) (k : Handle) : Prop where
  contents : t.contents k = s.contents k
  lent : s.lent k = none → t.lent k = none

lemma SameContents.refl (s : Store) (k : Handle) : SameContents s s k := ⟨rfl, fun h => h⟩

lemma SameContents.trans (h : SameContents s t k) (h' : SameContents t u k) : SameContents s u k :=
  ⟨h'.contents.trans h.contents, fun hs => h'.lent (h.lent hs)⟩

/-- One release leaves the contents of the entries that stay. -/
lemma ReleaseStep.contents (hi : Inv own none s) {own' : Handle → Nat} (hit : Inv own' none t)
    (hstep : ReleaseStep h s t) (hk : (t.at? k).isSome = true) : SameContents s t k := by
  cases hstep with
  | lowered e lookup shared eq =>
      subst eq
      have hlent : (s.modify h.slot fun e => { e with strong := e.strong - 1 }).lent k = s.lent k := by
        refine lent_congr (modify_length _) fun i => ?_
        rw [cell_modify]
        split_ifs with hih
        · subst hih
          rcases s.cell h.slot <;> rfl
        · rfl
      refine ⟨?_, fun hs => hlent.trans hs⟩
      unfold Store.contents
      rw [hlent, at?_modify lookup]
      split_ifs with hkh
      · rw [hkh, lookup]
        rfl
      · rfl
  | freed d lookup last gone others sums work length limits order free =>
      have hne : k ≠ h := by
        rintro rfl
        rw [gone] at hk
        cases hk
      rw [others k hne, Option.isSome_map] at hk
      obtain ⟨x, hx⟩ := Option.isSome_iff_exists.1 hk
      obtain ⟨hpay, hrest⟩ := survivor_payload hi lookup hx
      -- A survivor lends what it lent before: only a vector without elements has changed.
      have hcell : ∀ i, i ≠ h.slot → (t.cell i).bind (loan · k) = (s.cell i).bind (loan · k) := by
        intro i hne
        rw [cell_survivor others hne]
        rcases hc : s.cell i with _ | c
        · rfl
        · obtain ⟨hp, hm⟩ := survivor_payload hi lookup (at?_of_cell hc)
          rcases hr : d.payload.restores.bind fun r => if r.1 = c.1 then some r.2 else none
            with _ | vs
          · rw [hr] at hp
            simp only [Option.map_some, Option.bind_some, loan, hp, Option.elim_none]
          · rw [hr] at hp hm
            have hmoved := (hm rfl).1
            simp only [Option.map_some, Option.bind_some]
            rw [loan_eq_none (c := c) (by rw [hmoved]; rfl), loan_eq_none]
            rw [hp]
            rfl
      have hvacant := cell_retired lookup gone others
      have hcs := at?_eq_some.1 lookup
      have hat : t.contents k = some ((t.lent k).elim (survivor d k x).payload (.list .vec)) := by
        unfold Store.contents
        rw [others k hne, hx]
        rfl
      have hat' : s.contents k = some ((s.lent k).elim x.payload (.list .vec)) := by
        unfold Store.contents
        rw [hx]
        rfl
      rcases hl : loan (h, d) k with _ | values
      · -- The retired entry had lent nothing to `k`.
        have hlent : t.lent k = s.lent k := by
          refine lent_congr length fun i => ?_
          rcases Decidable.em (i = h.slot) with rfl | hne
          · rw [hvacant, hcs, Option.bind_some, hl]
            rfl
          · exact hcell i hne
        refine ⟨?_, fun hs => hlent.trans hs⟩
        unfold loan at hl
        rw [hat, hat', hlent, hpay, hl]
        rfl
      · -- The guard of `k` was retired, and the elements are back.
        have hl' := hl
        unfold loan at hl'
        rw [hl'] at hrest hpay
        have hback : t.lent k = none :=
          lent_eq_none hit (by rw [others k hne, hx]; rfl) (hrest rfl).2
        have hbefore : s.lent k = some values := by
          refine lent_eq_of_single hcs hl fun j hne => ?_
          rw [← hcell j hne]
          unfold lent at hback
          rw [List.findSome?_eq_none_iff] at hback
          rcases Nat.lt_or_ge j t.slots.length with hj | hj
          · exact hback j (List.mem_range.2 hj)
          · rcases hc : t.cell j with _ | c
            · rfl
            · have := slot_lt (s := t) (i := j) (by rw [hc]; rfl)
              omega
        refine ⟨?_, fun _ => hback⟩
        rw [hat, hat', hback, hbefore, Option.elim_none, hpay]

/-- The cascade of a release leaves the contents of the entries that stay. -/
lemma release_contents {v : Value} (hi : Inv (own + v.refs) none s) :
    wp (release v)
      (fun _ t => Inv own none t ∧ ∀ k, (t.at? k).isSome = true → SameContents s t k)
      (fun _ _ => False) s := by
  have hfollows : Follows own none fun _ u =>
      ∀ k, (u.at? k).isSome = true → SameContents s u k := by
    refine ⟨fun q u w hu k hk => ⟨(hu k hk).contents, (hu k hk).lent⟩, fun h u t hiu hit hstep hu k hk => ?_⟩
    have hlive : (u.at? k).isSome = true := by
      cases hstep with
      | lowered e lookup shared eq =>
          subst eq
          rw [at?_modify lookup] at hk
          split_ifs at hk with hkh
          · rw [hkh, lookup]
            rfl
          · exact hk
      | freed d lookup last gone others sums work length limits order free =>
          have hne : k ≠ h := by
            rintro rfl
            rw [gone] at hk
            cases hk
          rwa [others k hne, Option.isSome_map] at hk
    exact (hu k hlive).trans (hstep.contents hiu hit hk)
  refine wp_mono (release_follows hfollows hi (fun d hd => by cases hd) fun k _ => .refl s k) ?_
    fun _ _ h => h
  rintro - t ⟨hit, -, hc⟩
  exact ⟨hit, hc⟩

/-! ## Exchanging -/

lemma Reserved.contents (hr : Reserved s t) (k : Handle) : SameContents s t k := by
  have hlent : t.lent k = s.lent k :=
    lent_congr (by rw [hr.slots]) fun i => by rw [hr.cell]
  refine ⟨?_, fun hs => hlent.trans hs⟩
  unfold Store.contents
  rw [hlent, hr.at?]

lemma at?_exchanged {q : Payload} {c : Nat → Nat} {f : Handle → Nat} {n b : Nat}
    (hh : s.at? h = some e) : ((s.bump f).exchanged h q c n b).at? h =
      some { e with
        strong := e.strong + f h, payload := q, chargedBytes := c e.chargedBytes } := by
  have hb : (s.bump f).at? h = some { e with strong := e.strong + f h } := by
    rw [at?_bump, hh]
    rfl
  exact at?_modify_self hb _

/-- An exchange between payloads that lend nothing leaves the other entries. -/
lemma exchanged_contents {q : Payload} {c : Nat → Nat} {f : Handle → Nat} {n b : Nat}
    (hh : s.at? h = some e) (hp : e.payload.restores = none) (hq : q.restores = none) (hk : k ≠ h) :
    SameContents s ((s.bump f).exchanged h q c n b) k := by
  have hb : (s.bump f).at? h = some { e with strong := e.strong + f h } := by
    rw [at?_bump, hh]
    rfl
  have hlent : ((s.bump f).exchanged h q c n b).lent k = s.lent k := by
    refine lent_congr ((modify_length _).trans bump_length) fun i => ?_
    have hcell : ((s.bump f).exchanged h q c n b).cell i =
        ((s.bump f).modify h.slot fun e =>
          { e with payload := q, chargedBytes := c e.chargedBytes }).cell i := rfl
    rw [hcell, cell_modify]
    split_ifs with hih
    · subst hih
      rw [at?_eq_some.1 hb, at?_eq_some.1 hh]
      simp only [Option.map_some, Option.bind_some]
      rw [loan_eq_none hq, loan_eq_none hp]
    · rw [cell_bump]
      rcases s.cell i <;> rfl
  refine ⟨?_, fun hs => hlent.trans hs⟩
  unfold Store.contents
  have hat : ((s.bump f).exchanged h q c n b).at? k = (s.bump f).at? k := at?_modify_of_ne hb hk _
  rw [hlent, hat, at?_bump]
  rcases s.at? k <;> rfl

/-- `t` is `s` with `q` in `h`, for as long as `h` lives; the caller's reference keeps it alive. -/
structure Rewritten (own : Handle → Nat) (h : Handle) (q : Payload) (s t : Store) : Prop where
  live : 1 ≤ own h → (t.at? h).isSome = true
  payload : ∀ x, t.at? h = some x → x.payload = q
  others : ∀ k, k ≠ h → (t.at? k).isSome = true → SameContents s t k

/-- Exchanging one child for another rewrites one entry. -/
lemma replaceChild_contents {p q : Payload} {old new : Value} (hi : Inv own none s)
    (hm : s.mutable h = .ok p) (hx : Exchanges p q old new) (hp : p.restores = none)
    (hq : q.restores = none) :
    wp (replaceChild h q old new) (fun _ t => Rewritten own h q s t) (fun _ _ => True) s := by
  obtain ⟨-, e, he, hread, hpe, -⟩ := mutable_eq_ok.1 hm
  refine wp_seq (replacementEdges_spec old new) (fun _ _ _ => trivial) ?_
  rintro n t ⟨hr, hn, hroom⟩
  have het : t.at? h = some e := by rw [hr.at?]; exact he
  refine wp_seq (retain_inv (hi.reserved hr) new) (fun _ _ _ => trivial) ?_
  rintro - u ⟨rfl, hiu⟩
  have hroom' : n + t.work.length + 1 ≤ t.workCap := by
    rw [hr.work]
    omega
  have hin := hiu.exchange (n := n) (b := t.bytes) (c := fun n => n) (fun d hd => by cases hd) het hread hpe hx
    (by rw [hr.edges]; exact hn) hroom' rfl (by rw [hr.limits, hr.bytes]; exact hi.counts.bytes_le)
  change wp (do setChild h q n; release old) _ _ _
  unfold setChild
  rw [wp_update_bind]
  change wp (release old) _ _ ((t.bump new.refs).exchanged h q (fun n => n) n t.bytes)
  refine wp_mono (release_contents hin) ?_ fun _ _ _ => trivial
  rintro - w ⟨hiw, hsame⟩
  have hstart := at?_exchanged (f := new.refs) (q := q) (c := fun n => n) (n := n) (b := t.bytes) het
  have hnone := lent_eq_none hin hstart hread
  refine ⟨fun hown => ?_, fun x hxw => ?_, fun k hk hkw => ?_⟩
  · obtain ⟨x, hxw⟩ := hiw.counts.live_of_own hown
    rw [hxw]
    rfl
  · have hh := hsame h (by rw [hxw]; rfl)
    have hc := hh.contents
    unfold Store.contents at hc
    rw [hxw, hstart, hh.lent hnone, hnone] at hc
    exact Option.some.inj hc
  · refine ((hr.contents k).trans ?_).trans (hsame k hkw)
    exact exchanged_contents het (by rw [hpe]; exact hp) hq hk


lemma Rewritten.reserved {q : Payload} (hr : Reserved s t) (hw : Rewritten own h q t u) :
    Rewritten own h q s u where
  live := hw.live
  payload := hw.payload
  others k hk hku := (hr.contents k).trans (hw.others k hk hku)

/-- A value that joins a payload rewrites one entry. -/
lemma attach_contents {q : Payload} {new : Value} {charged bytes edges : Nat}
    (hi : Inv own none s) (hh : s.at? h = some e) (hp : e.payload.restores = none)
    (hq : q.restores = none) :
    wp (do retain new; setCharged h q charged bytes edges) (fun _ t => Rewritten own h q s t)
      (fun _ _ => True) s := by
  refine wp_seq (retain_inv hi new) (fun _ _ _ => trivial) ?_
  rintro - t ⟨rfl, -⟩
  unfold setCharged
  rw [wp_update]
  have hat := at?_exchanged (f := new.refs) (q := q) (c := fun _ => charged) (n := edges)
    (b := bytes) hh
  refine ⟨fun _ => ?_, fun x hx => ?_, fun k hk _ => ?_⟩
  · exact Option.isSome_iff_exists.2 ⟨_, hat⟩
  · obtain rfl := Option.some.inj (hat.symm.trans hx)
    rfl
  · exact exchanged_contents (c := fun _ => charged) hh hp hq hk

/-- An insertion rewrites the record it adds a field to. -/
lemma insertKey_contents {tag : Ty} {fields : Buf (Text × Value)} {key : List Char} {new : Value}
    (hi : Inv own none s) (hm : s.mutable h = .ok (.record tag fields)) :
    wp (insertKey h tag fields key new)
      (fun _ t => ∃ grown : Buf (Text × Value), grown.items = fields.items ++ [(.copy key, new)] ∧
        Rewritten own h (.record tag grown) s t)
      (fun _ _ => True) s := by
  obtain ⟨-, e, he, -, hp, -⟩ := mutable_eq_ok.1 hm
  have hnone : e.payload.restores = none := by rw [hp]; rfl
  unfold insertKey
  refine wp_ofExcept_bind (fun _ _ => trivial) fun keyBytes _ => ?_
  refine wp_ofExcept_bind (fun _ _ => trivial) fun next _ => ?_
  refine wp_ofExcept_bind (fun _ _ => trivial) fun planned _ => ?_
  refine wp_read_bind (fun _ _ => trivial) fun _ _ => ?_
  have hrest : ∀ u, Reserved s u → wp (do
      let charged ← ofExcept (fieldsCharge next keyBytes (utf8Len key))
      let bytes ← read (·.replacementBytes h charged)
      let s ← get
      let edges ← ofExcept (okOr (checkedAdd s.edges new.heapEdge) (err .overflow))
      reserveWork new.heapEdge 0
      guardWith (fields.items.length + 1 ≤ next) (.new .invalidCode "field capacity")
      retain new
      setCharged h (.record tag (.filled next (fields.items ++ [(.copy key, new)]))) charged bytes
        edges) (fun _ t => ∃ grown : Buf (Text × Value),
          grown.items = fields.items ++ [(.copy key, new)] ∧
          Rewritten own h (.record tag grown) s t) (fun _ _ => True) u := by
    intro u hr
    refine wp_ofExcept_bind (fun _ _ => trivial) fun charged _ => ?_
    refine wp_read_bind (fun _ _ => trivial) fun bytes _ => ?_
    rw [wp_get_bind]
    refine wp_ofExcept_bind (fun _ _ => trivial) fun edges _ => ?_
    refine wp_seq (reserveWork_spec _ _) (fun _ _ _ => trivial) ?_
    rintro - w ⟨hu, -⟩
    have hrw := hr.trans hu
    refine wp_guardWith_bind (fun _ => trivial) fun _ => ?_
    refine wp_mono (attach_contents (hi.reserved hrw) (by rw [hrw.at?]; exact he) hnone rfl) ?_
      fun _ _ _ => trivial
    intro _ t ht
    exact ⟨_, rfl, ht.reserved hrw⟩
  refine wp_seq (alloc_spec _) (fun _ _ _ => trivial) ?_
  rintro - t ⟨a, rfl⟩
  simp only
  split_ifs
  · refine wp_seq (alloc_spec _) (fun _ _ _ => trivial) ?_
    rintro - t ⟨b, rfl⟩
    exact hrest _ ((Reserved.spent a).trans (.spent b))
  · exact hrest _ (.spent a)

end Store

end Rnx
