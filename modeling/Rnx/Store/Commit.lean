import Rnx.Store.Contents
import Rnx.Store.Guards
import Rnx.Store.Reuse

/-!
# The outcome of a sort

From the call that begins a sort on, and whatever a program does in between, the guard holds the
elements of the vector in their old order.  A commit succeeds exactly on a permutation and puts
every element where the bank says; a release gives the elements back as they were.  In both cases
the vector is no longer held.
-/

namespace Rnx

open ErrState

/-- Both banks are as long as the elements, and `usize::MAX` is no index. -/
structure SortState.Balanced (st : SortState) : Prop where
  first : st.banks.1.items.length = st.values.items.length
  second : st.banks.2.items.length = st.values.items.length
  room : st.values.items.length ≤ usizeMax

namespace SortState

variable {st old : SortState} {n : Nat} {b : Buf Nat}

lemma Balanced.follows (h : old.Balanced) (hf : old.Follows st) : st.Balanced where
  first := by rw [hf.first, hf.values, h.first]
  second := by rw [hf.second, hf.values, h.second]
  room := by rw [hf.values]; exact h.room

lemma Balanced.bank (h : st.Balanced) (hb : st.bank n = some b) :
    b.items.length = st.values.items.length := by
  unfold SortState.bank at hb
  split at hb
  · obtain rfl := Option.some.inj hb
    exact h.first
  · obtain rfl := Option.some.inj hb
    exact h.second
  · cases hb

/-- A bank and the other one. -/
lemma bank_eq_some (hb : st.bank n = some b) : n ≤ 1 ∧ ∃ other, st.bank (1 - n) = some other := by
  unfold SortState.bank at hb
  split at hb
  · exact ⟨by decide, _, rfl⟩
  · exact ⟨by decide, _, rfl⟩
  · cases hb

lemma bank_isSome (st : SortState) (hn : n ≤ 1) : ∃ b, st.bank n = some b := by
  obtain rfl | rfl : n = 0 ∨ n = 1 := by omega
  · exact ⟨_, rfl⟩
  · exact ⟨_, rfl⟩

end SortState

namespace Store

variable {s t u : Store} {h k parent guard : Handle} {e : Entry} {st : SortState}
  {own own' : Handle → Nat} {held : Option Hold} {v : Value}

/-! ## The guards of a reachable store -/

/-- The active guards are balanced, and nobody reads them. -/
def Tended (s : Store) : Prop :=
  ∀ k e st, s.at? k = some e → e.payload.activeGuard = some st → st.Balanced ∧ e.readers = 0

lemma Tended.guarding (h : Tended s) (hst : Guarding s t) : Tended t := by
  intro k y st hy hguard
  obtain ⟨x, old, hx, hold, hfollows, hle⟩ := hst k y st hy hguard
  obtain ⟨hbalanced, hread⟩ := h k x old hx hold
  exact ⟨hbalanced.follows hfollows, by omega⟩

/-- The guard a sort begins with is balanced. -/
lemma Tended.begun {r : Value} (h : Tended s) (hb : Begun s v r t) : Tended t := by
  cases hb with
  | short => exact h
  | @lent _ parent guard values lent =>
      intro k y st hy hst
      by_cases hk : k = guard
      · subst hk
        obtain ⟨e, he, hread, hp⟩ := lent.made
        obtain rfl := Option.some.inj (he.symm.trans hy)
        obtain ⟨heq, -⟩ := Payload.activeGuard_eq_some.1 hst
        obtain rfl := Payload.sortGuard.inj (hp.symm.trans heq)
        exact ⟨⟨List.length_range, List.length_range, lent.room⟩, hread⟩
      · obtain hmoved | ⟨x, hx, hp, hr⟩ := lent.others k y hy hk
        · rw [hmoved] at hst
          cases hst
        · rw [hp] at hst
          rw [hr]
          exact h k x st hx hst

/-- A call either begins a sort or leaves the active guards as they were. -/
lemma Call.guards (c : Call) (hi : Inv own none s) (hw : s.work = []) :
    c.run.wp (fun r t => Guarding s t ∨ ∃ v w, r = some w ∧ c = .sortBegin v ∧ Begun s v w t)
      (fun _ t => Guarding s t) s := by
  by_cases hc : ∃ v, c = .sortBegin v
  · obtain ⟨v, rfl⟩ := hc
    refine wp_seq (sortBegin_spec hi hw v) ?_ ?_
    · intro e t ht
      exact Quiet.quiet ht.slots ht.free
    · rintro w t ⟨-, hbegun⟩
      exact .inr ⟨v, w, rfl, rfl, hbegun⟩
  · have hguarding := c.run_guarding fun v hv => hc ⟨v, hv⟩
    exact wp_mono (hguarding.wp s) (fun _ _ h => .inl h) fun _ _ h => h

lemma Reach.tended (hr : Reach own s) : Tended s := by
  induction hr with
  | new created =>
      intro k e st he
      rw [(new_reserved created).2.2.at?] at he
      cases he
  | @returned own s t c r before owned ran ih =>
      obtain ⟨hi, hw⟩ := reach_inv before
      obtain hguarding | ⟨v, w, -, -, hbegun⟩ := (wp_run ran (c.guards hi hw)).1 r rfl
      · exact ih.guarding hguarding
      · exact ih.begun hbegun
  | @failed own s t c e before owned ran ih =>
      obtain ⟨hi, hw⟩ := reach_inv before
      exact ih.guarding ((wp_run ran (c.guards hi hw)).2 e rfl)

/-! ## Committing -/

/-- What a commit leaves: every place of the vector has the element its bank names, and no
reference was made or given up. -/
structure Committed (parent : Handle) (elements : Buf Value) (source : Buf Nat) (s t : Store) :
    Prop where
  sorted : ∃ e values, t.at? parent = some e ∧ e.payload = .list .vec values ∧ e.readers = 0 ∧
    values.items.Perm elements.items ∧
    ∀ d src : Nat, source.items[d]? = some src → values.items[d]? = elements.items[src]?
  strong : ∀ k, t.strongAt k = s.strongAt k

lemma strongAt_modify {f : Entry → Entry} (hf : ∀ e, (f e).strong = e.strong) (i : Nat)
    (k : Handle) : (s.modify i f).strongAt k = s.strongAt k := by
  unfold strongAt at?
  rw [cell_modify]
  split_ifs with hk
  · rw [hk]
    rcases s.cell i with _ | ⟨k', x⟩
    · rfl
    · by_cases hkk : k' = k
      · simp [hkk, hf]
      · simp [hkk]
  · rfl

lemma sortState_heap (hi : Inv own held s) (hg : s.at? h = some e)
    (hp : e.payload = .sortGuard st) (hactive : st.active = true) :
    s.sortState (.heap h) = .ok st := by
  obtain ⟨x, hx, hread, -⟩ := hi.guarded hg hp hactive
  have hpay : s.payload h = .ok (.sortGuard st) :=
    payload_eq_ok.2 ⟨hi.table.isOpen, e, hg, hp, rfl⟩
  have hentry : s.entry st.parent = .ok x := entry_eq_ok.2 ⟨hi.table.isOpen, hx⟩
  unfold sortState
  simp only [hpay, Except.bind_eq_ok]
  refine ⟨_, rfl, ?_⟩
  simp only [Except.bind_eq_ok, ensure_eq_ok]
  exact ⟨(), hactive, x, hentry, (), hread, rfl⟩

/-- The vector once the elements are given back to it. -/
lemma returnElements_parent {x : Entry} {st' : SortState} {values : Buf Value}
    (hg : s.at? h = some e) (hx : s.at? parent = some x) (hne : parent ≠ h)
    (hparent : st'.parent = parent) :
    ∃ y, (returnElements h st' values s).at? parent = some y ∧ y.payload = .list .vec values ∧
      y.readers = 0 := by
  subst hparent
  exact ⟨_, (at?_modifyTwo hg hx hne.symm _).trans (if_pos rfl), rfl, rfl⟩

lemma strongAt_returnElements (values : Buf Value) (k : Handle) :
    (returnElements h st values s).strongAt k = s.strongAt k := by
  unfold returnElements modifyTwo
  rw [strongAt_modify, strongAt_modify]
  · exact fun _ => rfl
  · exact fun _ => rfl

/-- A commit of a balanced guard succeeds on a permutation, and on nothing else. -/
lemma sortCommit_spec {bank : Nat} {source : Buf Nat} (hi : Inv own held s) (hb : st.Balanced)
    (hg : s.at? h = some e) (hp : e.payload = .sortGuard st) (hactive : st.active = true)
    (hread : e.readers = 0) (hbank : st.bank bank = some source) :
    wp (sortCommit (.heap h) bank)
      (fun _ t => source.items.Perm (List.range st.values.items.length) ∧
        Committed st.parent st.values source s t)
      (fun _ _ => ¬ source.items.Perm (List.range st.values.items.length)) s := by
  obtain ⟨x, hx, hexcl, hmoved, -, -, hne⟩ := hi.guarded hg hp hactive
  obtain ⟨hle, other, hother⟩ := SortState.bank_eq_some hbank
  have hstate := sortState_heap hi hg hp hactive
  have hlen : s.sortLen (.heap h) = .ok st.values.items.length := by
    rw [← hb.first]
    show (s.sortState (.heap h)).map _ = _
    rw [hstate]
    rfl
  have hm : s.mutable h = .ok (.sortGuard st) :=
    mutable_eq_ok.2 ⟨hi.table.isOpen, e, hg, hread, hp, rfl⟩
  unfold sortCommit
  split
  · contradiction
  · refine wp_read_ok hstate (wp_guardWith_ok hle ?_)
    refine wp_read_ok hlen (wp_read_ok hm ?_)
    dsimp only
    rw [hbank, hother]
    dsimp only
    have hsource := hb.bank hbank
    have hblank : other.items.map (fun _ => usizeMax) =
        List.replicate st.values.items.length usizeMax := by
      rw [List.map_const', hb.bank hother]
    rw [hblank]
    have hstart := inverts_start st.values.items.length source.items
    rcases hinvert : invert st.values.items.length source.items st.values.items.length 0
      (List.replicate st.values.items.length usizeMax) with ⟨valid, inverse⟩
    dsimp only
    unfold setPayload
    rw [wp_update_bind]
    refine wp_guardWith_bind (fun hinvalid hperm => ?_) fun hvalid => ?_
    · have := invert_perm hstart (Nat.zero_add _) hb.room hperm
      rw [hinvert] at this
      exact hinvalid this
    refine wp_guardWith_ok rfl ?_
    have hinverts := invert_valid hstart (Nat.zero_add _) hb.room (by rw [hinvert]; exact hvalid)
    rw [hinvert] at hinverts
    rw [wp_update]
    refine ⟨hinverts.bank_perm hsource, ?_, fun k => ?_⟩
    · obtain ⟨y, hy, hpayload, hfree⟩ := returnElements_parent (at?_modify_self hg _)
        ((at?_modify_of_ne hg hne _).trans hx) hne (withBank_fields _ _ _).1
      exact ⟨y, _, hy, hpayload, hfree, applyInverse_perm _ _ _ _ _,
        fun d src hd => applyInverse_permutes hinverts hsource rfl hd⟩
    · rw [strongAt_returnElements, strongAt_modify]
      exact fun _ => rfl

/-! ## Releasing -/

/-- The elements are with the guard, or back in the vector if that is still there. -/
def Safe (guard : Handle) (st : SortState) (s : Store) : Prop :=
  (∃ e, s.at? guard = some e ∧ e.payload = .sortGuard st) ∨
    s.at? guard = none ∧ ∀ x, s.at? st.parent = some x → x.payload = .list .vec st.values ∧ x.readers = 0

/-- What a retirement leaves of a payload that is not moved. -/
lemma survivor_not_moved {x : Entry} (hi : Inv own none s) (hh : s.at? h = some e)
    (hk : s.at? k = some x) (hp : x.payload ≠ .moved .vec) :
    (survivor e k x).payload = x.payload := by
  obtain ⟨hpay, hmoved⟩ := survivor_payload hi hh hk
  rcases hr : e.payload.restores.bind fun r => if r.1 = k then some r.2 else none with _ | values
  · rw [hpay, hr]
    rfl
  · exact absurd (hmoved (by rw [hr]; rfl)).1 hp

/-- One release either leaves the elements where they are or gives them back. -/
lemma safe_step (hst : st.active = true) (hi : Inv (own + (Value.heap h).refs) none s)
    (hstep : ReleaseStep h s t) (hs : Safe guard st s) : Safe guard st t := by
  cases hstep with
  | lowered e lookup shared eq =>
      subst eq
      obtain ⟨x, hx, hp⟩ | ⟨hgone, hvector⟩ := hs
      · left
        rw [at?_modify lookup]
        split_ifs with hk
        · subst hk
          obtain rfl := Option.some.inj (hx.symm.trans lookup)
          exact ⟨_, rfl, hp⟩
        · exact ⟨x, hx, hp⟩
      · right
        refine ⟨?_, fun x hx => ?_⟩
        · rw [at?_modify lookup]
          split_ifs with hk
          · subst hk
            rw [hgone] at lookup
            cases lookup
          · exact hgone
        · rw [at?_modify lookup] at hx
          split_ifs at hx with hk
          · subst hk
            obtain rfl := Option.some.inj hx
            exact hvector e lookup
          · exact hvector x hx
  | freed e lookup last gone others =>
      by_cases hself : guard = h
      · -- The guard itself is retired: its elements go back to the vector.
        subst hself
        right
        refine ⟨gone, fun x hx => ?_⟩
        obtain ⟨y, hy, hp⟩ | ⟨hnone, -⟩ := hs
        · obtain rfl := Option.some.inj (hy.symm.trans lookup)
          have hne : st.parent ≠ guard := by
            intro heq
            rw [heq, gone] at hx
            cases hx
          rw [others _ hne, Option.map_eq_some_iff] at hx
          obtain ⟨z, -, rfl⟩ := hx
          unfold survivor settle
          rw [hp]
          simp [Payload.restores, Payload.exclusive, hst]
        · rw [hnone] at lookup
          cases lookup
      · obtain ⟨x, hx, hp⟩ | ⟨hgone, hvector⟩ := hs
        · left
          refine ⟨survivor e guard x, ?_, ?_⟩
          · rw [others guard hself, hx]
            rfl
          · rw [survivor_not_moved hi lookup hx (by rw [hp]; exact fun h => by cases h)]
            exact hp
        · right
          refine ⟨?_, fun x hx => ?_⟩
          · rw [others guard hself, hgone]
            rfl
          · by_cases hk : st.parent = h
            · rw [hk, gone] at hx
              cases hx
            · rw [others _ hk, Option.map_eq_some_iff] at hx
              obtain ⟨y, hy, rfl⟩ := hx
              obtain ⟨hp, hread⟩ := hvector y hy
              rw [survivor_not_moved hi lookup hy (by rw [hp]; exact fun h => by cases h)]
              refine ⟨hp, ?_⟩
              show (if e.payload.exclusive = some st.parent then 0
                else (relinked e _ y).readers - e.payload.leases st.parent) = 0
              split_ifs
              · rfl
              · show y.readers - _ = 0
                rw [hread, Nat.zero_sub]

/-- A release that frees a guard gives the elements back to its vector. -/
lemma release_returns (hr : Reach own s) (hv : ∀ h, v.refs h ≤ own h)
    (hg : s.at? guard = some e) (hp : e.payload = .sortGuard st) (hst : st.active = true)
    (hrun : release v s = (.ok (), t)) : Safe guard st t := by
  obtain ⟨hi, -⟩ := reach_inv hr
  have hsub : own - v.refs + v.refs = own := funext fun h => Nat.sub_add_cancel (hv h)
  rw [← hsub] at hi
  have hfollows : Follows (own - v.refs) none fun _ u => Safe guard st u := by
    constructor
    · intro q u w hu
      exact hu
    · intro h u w hiu hiw hstep hu
      exact safe_step hst hiu hstep hu
  have hspec := release_follows hfollows hi (fun d hd => by cases hd) (.inl ⟨e, hg, hp⟩)
  exact ((wp_run hrun hspec).1 () rfl).2.2

/-! ## From the beginning of a sort on -/

/-- The stores a program gets to from `s` by any calls, each of which may fail. -/
inductive Later (own : Handle → Nat) (s : Store) : (Handle → Nat) → Store → Prop
  | refl : Later own s own s
  | returned {own' : Handle → Nat} {t u : Store} {c : Call} {r : Option Value}
      (before : Later own s own' t) (owned : c.Owned own') (ran : c.run t = (.ok r, u)) :
      Later own s (own' - c.takes + optionRefs r) u
  | failed {own' : Handle → Nat} {t u : Store} {c : Call} {e : Error}
      (before : Later own s own' t) (owned : c.Owned own') (ran : c.run t = (.error e, u)) :
      Later own s own' u

lemma Reach.later (hr : Reach own s) (hl : Later own s own' t) : Reach own' t := by
  induction hl with
  | refl => exact hr
  | returned before owned ran ih => exact ih.returned owned ran
  | failed before owned ran ih => exact ih.failed owned ran

/-- While the guard is active it holds the elements of the vector. -/
structure Sorting (parent guard : Handle) (elements : Buf Value) (s : Store) : Prop where
  named : (s.at? guard).isSome ∨ Spent s guard
  holds : ∀ e st, s.at? guard = some e → e.payload.activeGuard = some st →
    st.parent = parent ∧ st.values = elements

lemma Sorting.guarding {elements : Buf Value} (h : Sorting parent guard elements s)
    (hages : Ages s t) (hst : Guarding s t) : Sorting parent guard elements t where
  named := h.named.elim (hages.live guard) fun hspent => .inr (hages.spent guard hspent)
  holds := by
    intro e st he hactive
    obtain ⟨x, old, hx, hold, hfollows, -⟩ := hst guard e st he hactive
    obtain ⟨hparent, hvalues⟩ := h.holds x old hx hold
    exact ⟨hfollows.parent.trans hparent, hfollows.values.trans hvalues⟩

/-- Another sort has a guard of its own, also when it begins after this one's is gone. -/
lemma Sorting.begun {elements : Buf Value} {r : Value} (h : Sorting parent guard elements s)
    (hages : Ages s t) (hb : Begun s v r t) : Sorting parent guard elements t := by
  cases hb with
  | short => exact h
  | @lent _ vector other values lent =>
      refine ⟨h.named.elim (hages.live guard) fun hspent => .inr (hages.spent guard hspent), ?_⟩
      intro e st he hactive
      have hne : guard ≠ other := by
        rintro rfl
        obtain hlive | hspent := h.named
        · rw [lent.fresh] at hlive
          cases hlive
        · rw [(hages.spent guard hspent).at?] at he
          cases he
      obtain hmoved | ⟨x, hx, hp, -⟩ := lent.others guard e he hne
      · rw [hmoved] at hactive
        cases hactive
      · rw [hp] at hactive
        exact h.holds x st hx hactive

lemma Sorting.later {elements : Buf Value} (hr : Reach own s) (h : Sorting parent guard elements s)
    (hl : Later own s own' t) : Sorting parent guard elements t := by
  induction hl with
  | refl => exact h
  | @returned own' t u c r before owned ran ih =>
      have hreach := hr.later before
      obtain ⟨hi, hw⟩ := reach_inv hreach
      have hages := c.run_aging.run t hreach.sane
      rw [ran] at hages
      obtain hguarding | ⟨v, w, -, -, hbegun⟩ := (wp_run ran (c.guards hi hw)).1 r rfl
      · exact ih.guarding hages hguarding
      · exact ih.begun hages hbegun
  | @failed own' t u c e before owned ran ih =>
      have hreach := hr.later before
      obtain ⟨hi, hw⟩ := reach_inv hreach
      have hages := c.run_aging.run t hreach.sane
      rw [ran] at hages
      exact ih.guarding hages ((wp_run ran (c.guards hi hw)).2 e rfl)

/-! ## The results -/

lemma sortCommit_short {n : I64} (hn : n.val = 0 ∨ n.val = 1) (bank : Nat) (s : Store) :
    sortCommit (.i64 n) bank s =
      (if bank ≤ 1 then .ok () else .error (err .invalidCode), s) := by
  have hshort : ∃ m, shortLen (.i64 n) = some m := by
    unfold shortLen
    obtain h | h := hn
    · exact ⟨0, if_pos h⟩
    · refine ⟨1, ?_⟩
      dsimp only
      rw [if_neg (by omega), if_pos h]
  obtain ⟨m, hm⟩ := hshort
  unfold sortCommit
  rw [hm]
  dsimp only
  unfold guardWith
  split_ifs
  · rfl
  · rfl

/-- An active guard of a reachable store commits exactly the permutations. -/
lemma sortCommit_iff {bank : Nat} (hr : Reach own s) (hst : s.sortState v = .ok st) :
    ((∃ t, sortCommit v bank s = (.ok (), t)) ↔
        ∃ source, st.bank bank = some source ∧
          source.items.Perm (List.range st.values.items.length)) ∧
      ∀ source t, st.bank bank = some source → sortCommit v bank s = (.ok (), t) →
        Committed st.parent st.values source s t := by
  obtain ⟨hi, -⟩ := reach_inv hr
  obtain ⟨h, rfl, hpay, hactive⟩ := sortState_eq_ok hst
  obtain ⟨-, e, hg, hp, -⟩ := payload_eq_ok.1 hpay
  obtain ⟨hbalanced, hread⟩ := hr.tended h e st hg (Payload.activeGuard_eq_some.2 ⟨hp, hactive⟩)
  have hspec : ∀ source, st.bank bank = some source → _ :=
    fun source hbank => sortCommit_spec hi hbalanced hg hp hactive hread hbank
  constructor
  · constructor
    · rintro ⟨t, hrun⟩
      by_cases hle : bank ≤ 1
      · obtain ⟨source, hbank⟩ := st.bank_isSome hle
        exact ⟨source, hbank, ((wp_run hrun (hspec source hbank)).1 () rfl).1⟩
      · have hfails : (sortCommit (.heap h) bank).wp (fun _ _ => False) (fun _ _ => True) s := by
          unfold sortCommit
          split
          · contradiction
          · exact wp_read_bind (fun _ _ => trivial) fun _ _ =>
              wp_guardWith_bind (fun _ => trivial) fun h => absurd h hle
        exact ((wp_run hrun hfails).1 () rfl).elim
    · rintro ⟨source, hbank, hperm⟩
      have := hspec source hbank
      rcases hrun : sortCommit (.heap h) bank s with ⟨x | ⟨⟩, t⟩
      · exact absurd hperm ((wp_run hrun this).2 x rfl)
      · exact ⟨t, rfl⟩
  · intro source t hbank hrun
    exact ((wp_run hrun (hspec source hbank)).1 () rfl).2

/-- The inner loop stops by itself: more fuel than places changes nothing. -/
lemma cycles_end {len : Nat} (dst fuel : Nat) (inverse : List Nat) (values : List Value)
    (hperm : inverse.Perm (List.range len)) (hlen : values.length = len) (hdst : dst < len)
    (hfuel : len < fuel) :
    followCycle fuel dst inverse values = followCycle (len + 1) dst inverse values ∧
      (followCycle fuel dst inverse values).1[dst]? = some dst := by
  have hcard := card_unsettled_le len inverse
  have hmore := followCycle_fuel dst hperm hlen (show _ < len + 1 by omega) hfuel
  refine ⟨hmore, ?_⟩
  rw [hmore]
  exact (followCycle_settles _ hperm hlen hdst (by omega)).2

/-- From the beginning of a sort on, through any calls: while the guard is active a commit succeeds
exactly on a permutation and puts the old element `bank[d]` into every place `d`, with every count
of references as it was; a release that frees the guard gives the vector its elements back; and the
cycles are followed to their ends.  A vector too short to sort has no guard and stays as it is. -/
theorem sort_session {r : Value} (hr : Reach own s) (hbegin : sortBegin v s = (.ok r, t))
    (hlater : Later (own + r.refs) t own' u) :
    ∃ parent e elements, v = .heap parent ∧ s.at? parent = some e ∧
      e.payload = .list .vec elements ∧
      (elements.items.length < 2 → t = s ∧ ∀ bank w, sortCommit r bank w =
        (if bank ≤ 1 then .ok () else .error (err .invalidCode), w)) ∧
      (∀ st, u.sortState r = .ok st → st.parent = parent ∧ st.values = elements ∧
        (∀ bank, (∃ w, sortCommit r bank u = (.ok (), w)) ↔
          ∃ source, st.bank bank = some source ∧
            source.items.Perm (List.range elements.items.length)) ∧
        (∀ bank source w, st.bank bank = some source → sortCommit r bank u = (.ok (), w) →
          Committed parent elements source u w) ∧
        ∀ given guard w, (∀ h, given.refs h ≤ own' h) → release given u = (.ok (), w) →
          r = .heap guard → w.at? guard = none → ∀ x, w.at? parent = some x →
            x.payload = .list .vec elements ∧ x.readers = 0) ∧
      ∀ dst fuel inverse values, inverse.Perm (List.range elements.items.length) →
        values.length = elements.items.length → dst < elements.items.length →
        elements.items.length < fuel →
        followCycle fuel dst inverse values =
            followCycle (elements.items.length + 1) dst inverse values ∧
          (followCycle fuel dst inverse values).1[dst]? = some dst := by
  obtain ⟨hi, hw⟩ := reach_inv hr
  have hbegun := ((wp_run hbegin (sortBegin_spec hi hw v)).1 r rfl).2
  have hreach : Reach (own + r.refs) t := by
    have hcall : (Call.sortBegin v).run s = (.ok (some r), t) := run_bind hbegin
    exact hr.returned (c := .sortBegin v) trivial hcall
  have hafter := hreach.later hlater
  cases hbegun with
  | @short parent e elements lookup payload hshort =>
      refine ⟨parent, e, elements, rfl, lookup, payload, fun _ => ⟨rfl, fun bank w => ?_⟩, ?_, ?_⟩
      · apply sortCommit_short
        dsimp only [I64.ofNat]
        omega
      · intro st hst
        cases hst
      · exact cycles_end
  | @lent _ parent guard elements lent =>
      obtain ⟨e, he, hp⟩ := lent.taken
      obtain ⟨g, hg, -, hguard⟩ := lent.made
      have hsorting : Sorting parent guard elements t := by
        refine ⟨.inl (by rw [hg]; rfl), fun y st hy hactive => ?_⟩
        obtain rfl := Option.some.inj (hg.symm.trans hy)
        obtain ⟨heq, -⟩ := Payload.activeGuard_eq_some.1 hactive
        obtain rfl := Payload.sortGuard.inj (hguard.symm.trans heq)
        exact ⟨rfl, rfl⟩
      refine ⟨parent, e, elements, rfl, he, hp, fun hshort => ?_, ?_, cycles_end⟩
      · exact absurd lent.long (Nat.not_le_of_lt hshort)
      · intro st hst
        obtain ⟨h, heq, hpay, hactive⟩ := sortState_eq_ok hst
        obtain rfl := Value.heap.inj heq
        obtain ⟨-, y, hy, hyp, -⟩ := payload_eq_ok.1 hpay
        obtain ⟨rfl, rfl⟩ := (hsorting.later hreach hlater).holds y st hy
          (Payload.activeGuard_eq_some.2 ⟨hyp, hactive⟩)
        refine ⟨rfl, rfl, fun bank => (sortCommit_iff hafter hst).1,
          fun bank source w => (sortCommit_iff hafter hst).2 source w, ?_⟩
        intro given guard' w hgiven hrun hsame hgone
        obtain rfl := Value.heap.inj hsame
        obtain ⟨z, hz, -⟩ | ⟨-, hback⟩ := release_returns hafter hgiven hy hyp hactive hrun
        · rw [hgone] at hz
          cases hz
        · exact hback

/-- Two numbers that are out of order. -/
def twoNumbers : List Value := [.i64 (.ofNat 7 (by decide)), .i64 (.ofNat 5 (by decide))]

/-- A vector of the two. -/
def unsorted : Store := (Call.list .vec twoNumbers).after roomy

/-- The vector, and the guard a sort of it begins with. -/
def sortingVec : Value := .heap ⟨0, 1⟩
def sortingGuard : Value := .heap ⟨1, 1⟩

/-- A sort of the vector has begun. -/
def sortingStore : Store := (Call.sortBegin sortingVec).after unsorted

/-- The first bank says to exchange the two. -/
def exchanging : Store := (Call.sortStore sortingGuard 0 1 0).after
  ((Call.sortStore sortingGuard 0 0 1).after sortingStore)

lemma reach_unsorted : Reach (0 - 0 + sortingVec.refs) unsorted :=
  have hcreated : Store.new 1 ⟨4, 400⟩ noNominals (fun _ => true) = .ok roomy := rfl
  (Reach.new hcreated).returned (c := .list .vec twoNumbers) (r := some sortingVec) trivial rfl

lemma later_exchanging : Later (0 - 0 + sortingVec.refs + sortingGuard.refs) sortingStore
    (0 - 0 + sortingVec.refs + sortingGuard.refs - 0 + optionRefs none - 0 + optionRefs none)
    exchanging :=
  (Later.refl.returned (c := .sortStore sortingGuard 0 0 1) (r := none) trivial rfl).returned
    (c := .sortStore sortingGuard 0 1 0) (r := none) trivial rfl

/-- The two are exchanged. -/
theorem sort_session_exchanging : ∃ w, sortCommit sortingGuard 0 exchanging = (.ok (), w) ∧
    Committed ⟨0, 1⟩ (.copy twoNumbers) (.copy [1, 0]) exchanging w := by
  obtain ⟨parent, e, elements, heq, he, hp, -, hactive, -⟩ :=
    sort_session reach_unsorted (v := sortingVec) (t := sortingStore) rfl later_exchanging
  obtain rfl := Value.heap.inj heq
  have hvector : (unsorted.at? ⟨0, 1⟩).map Entry.payload = some (.list .vec (.copy twoNumbers)) := rfl
  rw [he, Option.map_some, hp] at hvector
  obtain rfl := (Payload.list.inj (Option.some.inj hvector)).2
  have hst : exchanging.sortState sortingGuard = .ok ⟨⟨0, 1⟩, true, (.copy [1, 0], .copy [0, 1]),
    .copy twoNumbers⟩ := rfl
  obtain ⟨-, -, hiff, hcommitted, -⟩ := hactive _ hst
  obtain ⟨w, hw⟩ := (hiff 0).2 ⟨.copy [1, 0], rfl, List.Perm.swap 0 1 []⟩
  exact ⟨w, hw, hcommitted 0 _ w rfl hw⟩

end Store

end Rnx
