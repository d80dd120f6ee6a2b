import Rnx.Store.Aging
import Rnx.Store.Permuting

/-!
# The guards of sorts

An active guard holds the elements of its vector from the call that began the sort to the one that
commits it or releases the guard.  No call in between changes them: a guard of a later store is the
guard of the earlier one with other indices in its banks.  A commit succeeds exactly on a
permutation and applies it; a release gives the elements back as they are.
-/

namespace Rnx

open ErrState

/-- The state of a guard that has not given its elements back. -/
def Payload.activeGuard : Payload → Option SortState
  | .sortGuard st => if st.active then some st else none
  | _ => none

lemma Payload.activeGuard_of_not_guard {p : Payload} (h : p.isGuard = false) :
    p.activeGuard = none := by
  cases p with
  | sortGuard st => cases h
  | _ => rfl

lemma Payload.activeGuard_eq_some {p : Payload} {st : SortState} :
    p.activeGuard = some st ↔ p = .sortGuard st ∧ st.active = true := by
  constructor
  · intro h
    cases p with
    | sortGuard st' =>
        dsimp only [activeGuard] at h
        split_ifs at h with hactive
        obtain rfl := Option.some.inj h
        exact ⟨rfl, hactive⟩
    | _ => cases h
  · rintro ⟨rfl, hactive⟩
    exact if_pos hactive

/-- The same guard with other indices in its banks. -/
structure SortState.Follows (old new : SortState) : Prop where
  parent : new.parent = old.parent
  values : new.values = old.values
  first : new.banks.1.items.length = old.banks.1.items.length
  second : new.banks.2.items.length = old.banks.2.items.length

lemma SortState.Follows.refl (st : SortState) : st.Follows st := ⟨rfl, rfl, rfl, rfl⟩

lemma SortState.Follows.trans {a b c : SortState} (h : a.Follows b) (h' : b.Follows c) :
    a.Follows c :=
  ⟨h'.parent.trans h.parent, h'.values.trans h.values, h'.first.trans h.first,
    h'.second.trans h.second⟩

lemma SortState.follows_withBank {st : SortState} {n : Nat} {old new : Buf Nat}
    (hbank : st.bank n = some old) (hlen : new.items.length = old.items.length) :
    st.Follows (st.withBank n new) := by
  unfold SortState.bank at hbank
  split at hbank
  · obtain rfl := Option.some.inj hbank
    exact ⟨rfl, rfl, hlen, rfl⟩
  · obtain rfl := Option.some.inj hbank
    exact ⟨rfl, rfl, rfl, hlen⟩
  · cases hbank

namespace Store

variable {s t u : Store} {h k guard : Handle} {e : Entry} {st : SortState} {own : Handle → Nat}
  {held : Option Hold} {i : Nat}

/-! ## Guards across calls -/

/-- The active guards of `t` are guards of `s` with other indices in their banks, and no further
reader. -/
def Guarding (s t : Store) : Prop :=
  ∀ k y st, t.at? k = some y → y.payload.activeGuard = some st →
    ∃ x old, s.at? k = some x ∧ x.payload.activeGuard = some old ∧ old.Follows st ∧
      y.readers ≤ x.readers

instance : IsPreorder Store Guarding where
  refl _ _ y st hy hst := ⟨y, st, hy, hst, .refl st, Nat.le_refl _⟩
  trans _ _ _ hst htu k y st hy hguard := by
    obtain ⟨x, mid, hx, hmid, hfollows, hle⟩ := htu k y st hy hguard
    obtain ⟨w, old, hw, hold, hfollows', hle'⟩ := hst k x mid hx hmid
    exact ⟨w, old, hw, hold, hfollows'.trans hfollows, hle.trans hle'⟩

/-- What no longer is, or is no guard, needs no argument. -/
lemma guarding_of_lookup (hlook : ∀ k y, t.at? k = some y →
    (∃ x, s.at? k = some x ∧ y.payload = x.payload ∧ y.readers ≤ x.readers) ∨
      y.payload.activeGuard = none) : Guarding s t := by
  intro k y st hy hst
  obtain ⟨x, hx, hp, hle⟩ | hnone := hlook k y hy
  · exact ⟨x, st, hx, hp ▸ hst, .refl st, hle⟩
  · rw [hnone] at hst
    cases hst

lemma at?_of_slots (h : t.slots = s.slots) (k : Handle) : t.at? k = s.at? k := by
  unfold at? cell
  rw [h]

/-- A lookup after a rewrite of slot `i`. -/
lemma at?_modify_eq_some {f : Entry → Entry} {y : Entry} (hy : (s.modify i f).at? k = some y) :
    ∃ x, s.at? k = some x ∧ ((k.slot = i ∧ y = f x) ∨ y = x) := by
  rw [at?_eq_some, cell_modify] at hy
  split_ifs at hy with hk
  · obtain ⟨⟨k', x⟩, hx, hyx⟩ := Option.map_eq_some_iff.1 hy
    obtain ⟨rfl, rfl⟩ := Prod.mk.inj hyx
    exact ⟨x, at?_eq_some.2 (hk ▸ hx), .inl ⟨hk, rfl⟩⟩
  · exact ⟨y, at?_eq_some.2 hy, .inr rfl⟩

lemma guarding_modify (s : Store) (i : Nat) {f : Entry → Entry} (hf : ∀ e : Entry, e.Spares (f e)) :
    Guarding s (s.modify i f) := by
  apply guarding_of_lookup
  intro k y hy
  obtain ⟨x, hx, ⟨-, rfl⟩ | rfl⟩ := at?_modify_eq_some hy
  · obtain ⟨hp, hle⟩ | hnot := hf x
    · exact .inl ⟨x, hx, hp, hle⟩
    · exact .inr (Payload.activeGuard_of_not_guard hnot)
  · exact .inl ⟨y, hx, rfl, Nat.le_refl _⟩

lemma guarding_inactive (s : Store) (i : Nat) {f : Entry → Entry}
    (hf : ∀ e : Entry, (f e).payload.activeGuard = none) : Guarding s (s.modify i f) := by
  apply guarding_of_lookup
  intro k y hy
  obtain ⟨x, hx, ⟨-, rfl⟩ | rfl⟩ := at?_modify_eq_some hy
  · exact .inr (hf x)
  · exact .inl ⟨y, hx, rfl, Nat.le_refl _⟩

/-- A lease on what was no guard leaves the guards as they are. -/
lemma guarding_lease (n : Nat) (hs : s.at? h = some e) (hp : e.payload.isGuard = false)
    (hst : Guarding s t) : Guarding s (t.modify h.slot fun e => { e with readers := n }) := by
  intro k y st hy hguard
  obtain ⟨x, hx, ⟨hslot, rfl⟩ | rfl⟩ := at?_modify_eq_some hy
  · obtain ⟨w, old, hw, hold, -⟩ := hst k x st hx hguard
    obtain rfl := eq_of_slot_eq hw hs hslot
    obtain rfl := Option.some.inj (hw.symm.trans hs)
    rw [Payload.activeGuard_of_not_guard hp] at hold
    cases hold
  · exact hst k y st hx hguard

instance : Rewrites Guarding where
  quiet hslots _ := guarding_of_lookup fun k y hy =>
    .inl ⟨y, at?_of_slots hslots k ▸ hy, rfl, Nat.le_refl _⟩
  modify s i _ hf := guarding_modify s i hf

/-- A lookup in a store whose slots are among those of another. -/
lemma at?_of_cell_eq {y : Entry} (hcell : t.cell k.slot = s.cell k.slot) (hy : t.at? k = some y) :
    s.at? k = some y := by
  rw [at?_eq_some] at hy ⊢
  rw [← hcell]
  exact hy

/-- What an iterator leases is a sequence. -/
lemma leased_not_guard {iter : Iter} {r : Option Nat}
    (hr : s.admitReaders (.vectorIterator iter) = .ok r) (he : s.at? iter.handle = some e) :
    e.payload.isGuard = false := by
  simp only [admitReaders, Except.bind_eq_ok, ensure_eq_ok] at hr
  obtain ⟨q, hq, -, htag, -⟩ := hr
  obtain ⟨-, x, hx, rfl, -⟩ := payload_eq_ok.1 hq
  obtain rfl := Option.some.inj (he.symm.trans hx)
  cases hp : e.payload with
  | sortGuard st =>
      rw [hp] at htag
      rcases htag with h | h | h
      all_goals cases h
  | _ => rfl

/-- A publication puts a payload into its slot and a link into another. -/
lemma guarding_publish (hst : Guarding s t) (i : Nat) {p : Payload} {a : Admitted}
    (hp : p.isGuard = false) (hr : s.admitReaders p = .ok a.readers) :
    Guarding s (t.publish i p a) := by
  have hlease : Guarding s (t.withLease p a.readers) := by
    obtain ⟨iter, e, rfl, he, -, hreaders, -⟩ | ⟨-, hnone⟩ := admitReaders_eq_ok hr
    · rw [hreaders]
      exact guarding_lease _ he (leased_not_guard hr he) hst
    · unfold withLease
      rw [hnone]
      split
      · contradiction
      · exact hst
  have hplace : ∀ (v : Store) (x : Entry), x.payload = p → Guarding v (v.place i x) := by
    intro v x hx
    apply guarding_of_lookup
    intro k y hy
    rw [at?_eq_some] at hy
    unfold cell place at hy
    simp only [List.getElem?_modify] at hy
    by_cases hk : i = k.slot
    · right
      rcases hsl : v.slots[k.slot]? with _ | sl
      · simp [hsl] at hy
      · simp only [hsl, hk, if_true, Option.map_eq_map, Option.map_some, Option.bind_some,
          Option.some.injEq, Prod.mk.injEq] at hy
        rw [← hy.2, hx]
        exact Payload.activeGuard_of_not_guard hp
    · left
      refine ⟨y, at?_eq_some.2 ?_, rfl, Nat.le_refl _⟩
      unfold cell
      simpa [hk] using hy
  have hlink : ∀ (v : Store) (a b : Option Nat), Guarding v (v.relinkNext a b) := by
    intro v a b
    unfold relinkNext
    cases a with
    | none => exact Quiet.quiet rfl rfl
    | some j => exact guarding_modify _ _ fun _ => .inl ⟨rfl, Nat.le_refl _⟩
  exact trans_of Guarding hlease (trans_of Guarding (hplace _ _ rfl) (hlink _ _ _))

lemma cell_append {sl : Slot} (hsl : sl.entry = none) (j : Nat) :
    ({ s with slots := s.slots ++ [sl] } : Store).cell j = s.cell j := by
  unfold cell
  by_cases hj : j < s.slots.length
  · rw [List.getElem?_append_left hj]
  · rw [List.getElem?_append_right (Nat.le_of_not_lt hj),
      List.getElem?_eq_none (Nat.le_of_not_lt hj)]
    rcases hs : [sl][j - s.slots.length]? with _ | sl'
    · rfl
    · obtain rfl := List.mem_singleton.1 (List.mem_of_getElem? hs)
      simp [hsl]

lemma guarding_append (s : Store) : Guarding s { s with slots := s.slots ++ [⟨1, none⟩] } :=
  guarding_of_lookup fun _ y hy =>
    .inl ⟨y, at?_of_cell_eq (cell_append rfl _) hy, rfl, Nat.le_refl _⟩

lemma guarding_dropLast (s : Store) : Guarding s { s with slots := s.slots.dropLast } := by
  apply guarding_of_lookup
  intro k y hy
  refine .inl ⟨y, ?_, rfl, Nat.le_refl _⟩
  rw [at?_eq_some] at hy ⊢
  unfold cell at hy ⊢
  obtain ⟨sl, hsl, hy⟩ := Option.bind_eq_some_iff.1 hy
  rw [List.getElem?_dropLast] at hsl
  split_ifs at hsl
  rw [hsl]
  exact hy

/-- An admission leases its source as it was found by the checks, which no guard passes. -/
lemma guarding_admit {p : Payload} (hp : p.isGuard = false) : Within Guarding (admitPayload p) := by
  apply Within.of_wp
  intro s
  have hself : Guarding s s := refl_of Guarding s
  unfold admitPayload
  refine wp_read_bind (fun _ _ => hself) fun a ha => ?_
  obtain ⟨-, -, -, -, -, hr⟩ := admitCheck_eq_ok ha
  apply wp_seq ((reserveWork_evolves _ _).after hself) fun _ _ h => h
  intro _ t ht
  apply wp_seq (reserveSlot_evolves.after ht) fun _ _ h => h
  intro _ t ht
  rw [wp_get_bind]
  split
  · split
    · apply wp_seq ((retainChildren_evolves _ _).after ht) fun _ _ h => h
      intro _ u hu
      rw [wp_update_bind]
      exact trans_of Guarding (guarding_publish hu _ hp hr) (Quiet.quiet rfl rfl)
    · exact ht
  · dsimp only
    apply wp_ite
    · intro _
      exact ht
    · intro _
      rw [wp_update_bind]
      have hfresh := trans_of Guarding ht (guarding_append t)
      apply wp_seq ((Within.attempt (retainChildren_evolves [] p.children)).after hfresh)
        fun _ _ h => h
      intro r u hu
      cases r with
      | error e =>
          rw [wp_update_bind]
          exact trans_of Guarding hu (guarding_dropLast u)
      | ok x =>
          rw [wp_update_bind]
          exact guarding_publish hu _ hp hr

instance : Evolves Guarding where
  admits _ hp := guarding_admit hp
  retire {s h e} hh := by
    apply guarding_of_lookup
    intro k y hy
    rw [at?_eq_some, cell_unlink, cell_vacate hh] at hy
    obtain ⟨⟨k', x⟩, hx, hyx⟩ := Option.map_eq_some_iff.1 hy
    split_ifs at hx
    obtain ⟨rfl, rfl⟩ := Prod.mk.inj hyx
    exact .inl ⟨x, at?_eq_some.2 hx, rfl, Nat.le_refl _⟩

instance : LeasesText Guarding where
  lease n hs htag hst := by
    refine guarding_lease n hs ?_ hst
    cases hp : Entry.payload _ with
    | sortGuard st =>
        rw [hp] at htag
        cases htag
    | _ => rfl

/-! ## The calls of a sort -/

/-- Writing a bank of a guard. -/
lemma guarding_setBank {old : Buf Nat} {n : Nat} (new : Buf Nat) (hs : s.at? h = some e)
    (hp : e.payload = .sortGuard st) (hbank : st.bank n = some old)
    (hlen : new.items.length = old.items.length) :
    Guarding s (s.modify h.slot fun e => { e with payload := .sortGuard (st.withBank n new) }) := by
  intro k y st' hy hst
  rw [at?_modify hs] at hy
  split_ifs at hy with hk
  · obtain rfl := Option.some.inj hy
    obtain ⟨heq, hactive⟩ := Payload.activeGuard_eq_some.1 hst
    obtain rfl := Payload.sortGuard.inj heq
    refine ⟨e, st, hk ▸ hs, ?_, SortState.follows_withBank hbank hlen, Nat.le_refl _⟩
    exact Payload.activeGuard_eq_some.2 ⟨hp, (withBank_fields st n new).2.1 ▸ hactive⟩
  · exact ⟨y, st', hy, hst, .refl st', Nat.le_refl _⟩

lemma sortStore_guarding (guard : Value) (bank index element : Nat) :
    Within Guarding (sortStore guard bank index element) := by
  apply Within.of_wp
  intro s
  have hself : Guarding s s := refl_of Guarding s
  refine wp_read_bind (fun _ _ => hself) fun len _ => wp_guardWith_bind (fun _ => hself) fun _ => ?_
  split
  · refine wp_read_bind (fun _ _ => hself) fun p hm => ?_
    obtain ⟨-, e, he, -, hp, -⟩ := mutable_eq_ok.1 hm
    split
    · split
      · rename_i b hb
        refine wp_guardWith_bind (fun _ => hself) fun _ => ?_
        exact guarding_setBank _ he hp hb (List.length_set ..)
      · exact hself
    · exact hself
  · exact hself

lemma invert_length (len : Nat) (bank : List Nat) (n dst : Nat) (inverse : List Nat) :
    (invert len bank n dst inverse).2.length = inverse.length := by
  induction n generalizing dst inverse with
  | zero => rfl
  | succ n ih =>
      unfold invert
      split
      · split_ifs
        · rfl
        · rw [ih, List.length_set]
      · rfl

/-- A commit writes the other bank, and ends with a guard that is no longer active. -/
lemma sortCommit_guarding (guard : Value) (bank : Nat) : Within Guarding (sortCommit guard bank) := by
  apply Within.of_wp
  intro s
  have hself : Guarding s s := refl_of Guarding s
  unfold sortCommit
  split
  · exact wp_guardWith (fun _ => hself) fun _ => hself
  · refine wp_read_bind (fun _ _ => hself) fun st₀ _ => wp_guardWith_bind (fun _ => hself) fun _ => ?_
    split
    · refine wp_read_bind (fun _ _ => hself) fun len _ => wp_read_bind (fun _ _ => hself) fun p hm => ?_
      obtain ⟨-, e, he, -, hp, -⟩ := mutable_eq_ok.1 hm
      split
      · split
        · rename_i source other _ hother
          dsimp only
          unfold setPayload
          rw [wp_update_bind]
          have hlen : (invert len source.items len 0 (other.items.map fun _ => usizeMax)).2.length =
              other.items.length := by
            rw [invert_length, List.length_map]
          have hbank : Guarding s _ :=
            guarding_setBank (.filled other.capacity (invert len source.items len 0
              (other.items.map fun _ => usizeMax)).2) he hp hother hlen
          refine wp_guardWith_bind (fun _ => hbank) fun _ => wp_guardWith_bind (fun _ => hbank) fun _ => ?_
          apply trans_of Guarding hbank
          exact trans_of Guarding (trans_of Guarding (guarding_inactive _ _ fun _ => rfl)
            (guarding_inactive _ _ fun _ => rfl)) (Quiet.quiet rfl rfl)
        · exact hself
      · exact hself
    · exact hself

/-- Every call but the one that begins a sort leaves the active guards as they were, but for their
banks. -/
lemma Call.run_guarding (c : Call) (hc : ∀ v, c ≠ .sortBegin v) : Within Guarding c.run := by
  cases c with
  | sortBegin v => exact absurd rfl (hc v)
  | sortStore guard bank index element => exact performing_evolves (sortStore_guarding _ _ _ _)
  | sortCommit guard bank => exact performing_evolves (sortCommit_guarding _ _)
  | _ => exact Call.run_evolves _ rfl

end Store

end Rnx
