import Rnx.Store.Cascade

/-!
# Which entries a release frees

The cascade of a release is characterised without following it.  Call a set of entries *closed*
when it contains every live entry whose count would be used up by the released reference and by
the references its members own.  The entries a release frees are the least closed set, and every
other count falls by exactly the references that were dropped to it.  In particular an entry on a
cycle that is not reached from outside the cycle by a last reference stays.

What an entry owns is read with the guards dissolved: a guard owns only its vector, and the
vector owns the elements its guard holds for it.
-/

namespace Rnx

open ErrState

namespace Payload

/-- The references to `k` a guard holds for the vector `g`. -/
def heldFor (p : Payload) (g k : Handle) : Nat :=
  match p.restores with
  | some (h, values) => if h = g then refsIn values.items k else 0
  | none => 0

end Payload

namespace Store

variable {s t u : Store} {h k : Handle} {e : Entry} {own : Handle → Nat}

/-- The references to `k` that the entry of `g` owns, with guards dissolved. -/
def released (s : Store) (g k : Handle) : Nat :=
  (s.at? g).elim 0 (fun e => e.payload.detach.refs k) + s.sum (·.heldFor g k)

open Classical in
/-- The references to `k` that the live entries in `F` own. -/
noncomputable def dropped (s : Store) (F : Handle → Prop) (k : Handle) : Nat :=
  s.total (fun g _ => if F g then s.released g k else 0)

/-- `F` contains every live entry that giving up `v` and all of `F` leaves without a reference. -/
def ClosedUnder (s : Store) (v : Value) (F : Handle → Prop) : Prop :=
  ∀ k, (s.at? k).isSome = true → s.strongAt k ≤ v.refs k + s.dropped F k → F k

/-- The entries of `s` that are gone in `t`. -/
def GoneIn (s t : Store) (g : Handle) : Prop := (s.at? g).isSome = true ∧ t.at? g = none

lemma dropped_mono {F G : Handle → Prop} (hFG : ∀ g, F g → G g) (k : Handle) :
    s.dropped F k ≤ s.dropped G k := by
  refine total_le_total fun g _ _ => ?_
  by_cases hF : F g
  · rw [if_pos hF, if_pos (hFG g hF)]
  · rw [if_neg hF]
    exact Nat.zero_le _

lemma dropped_congr {F G : Handle → Prop} (hFG : ∀ g, (s.at? g).isSome = true → (F g ↔ G g))
    (k : Handle) : s.dropped F k = s.dropped G k := by
  refine total_congr fun g e he => ?_
  have : F g ↔ G g := hFG g (by rw [he]; rfl)
  by_cases hF : F g
  · rw [if_pos hF, if_pos (this.1 hF)]
  · rw [if_neg hF, if_neg fun hG => hF (this.2 hG)]

lemma dropped_none (k : Handle) : s.dropped (fun _ => False) k = 0 := by
  unfold dropped total
  refine Finset.sum_eq_zero fun i _ => ?_
  rcases s.cell i <;> simp

/-- One more member adds what it owns. -/
lemma dropped_insert {F : Handle → Prop} (hh : (s.at? h).isSome = true) (hF : ¬ F h)
    (k : Handle) : s.dropped (fun g => F g ∨ g = h) k = s.dropped F k + s.released h k := by
  obtain ⟨e, he⟩ := Option.isSome_iff_exists.1 hh
  have hsplit : s.dropped (fun g => F g ∨ g = h) k =
      s.dropped F k + s.dropped (fun g => g = h) k := by
    unfold dropped
    rw [← total_add]
    refine total_congr fun g x _ => ?_
    by_cases hg : g = h
    · subst hg
      simp [hF]
    · by_cases hFg : F g <;> simp [hFg, hg]
  have hone : s.dropped (fun g => g = h) k = s.released h k := by
    have hc := at?_eq_some.1 he
    unfold dropped total
    rw [Finset.sum_eq_single h.slot]
    · simp [hc]
    · intro i _ hi
      rcases hci : s.cell i with _ | p
      · rfl
      · have : p.1 ≠ h := fun hp => hi (by rw [← cell_handle_slot hci, hp])
        simp [this]
    · intro hn
      exact absurd (Finset.mem_range.2 (slot_lt_of_at? he)) hn
  rw [hsplit, hone]

/-! ## Following the cascade -/

/-- The state of a cascade that started at `s` with the release of `v`. -/
structure Cascading (s : Store) (v : Value) (q : Handle → Nat) (u : Store) : Prop where
  fewer : ∀ g, (u.at? g).isSome = true → (s.at? g).isSome = true
  owned : ∀ g, (u.at? g).isSome = true → ∀ k, u.released g k = s.released g k
  counted : ∀ k, s.strongAt k + q k = u.strongAt k + v.refs k + s.dropped (GoneIn s u) k
  least : ∀ F, s.ClosedUnder v F → ∀ g, GoneIn s u g → F g

lemma cascading_start (s : Store) (v : Value) : Cascading s v v.refs s where
  fewer _ hg := hg
  owned _ _ _ := rfl
  counted k := by
    rw [dropped_congr (G := fun _ => False) (fun g hg => by simp [GoneIn, Option.isSome_iff_ne_none.1 hg]),
      dropped_none, Nat.add_zero]
  least _ _ g hg := by
    rw [GoneIn, Option.isSome_iff_ne_none] at hg
    exact absurd hg.2 hg.1

/-- An entry about to be retired is held by nobody. -/
lemma sum_heldFor_eq_zero {held : Option Hold} (hi : Inv (own + (Value.heap h).refs) held u)
    (he : u.at? h = some e) (h1 : e.strong = 1) (k : Handle) : u.sum (·.heldFor h k) = 0 := by
  have hb := hi.counts.balance h
  rw [strongAt_of_at? he, Pi.add_apply, Value.refs_self] at hb
  by_contra hne
  obtain ⟨g, x, hx, hpos⟩ := exists_of_total_pos (Nat.pos_of_ne_zero hne)
  have href : 1 ≤ x.payload.refs h := by
    have hle := x.payload.leases_add_holds_le_refs h
    have : x.payload.holds h = 1 := by
      refine if_pos ?_
      unfold Payload.heldFor at hpos
      rcases hp : x.payload with _ | _ | _ | _ | _ | _ | _ | _ | _ | _ | _ | _ | st | _ | _
      all_goals simp only [hp, Payload.restores, Nat.lt_irrefl] at hpos
      by_cases ha : st.active = true
      · simp only [ha, if_true] at hpos
        split_ifs at hpos with hs
        · simp [Payload.exclusive, ha, hs]
        · exact absurd hpos (Nat.lt_irrefl 0)
      · simp [ha] at hpos
    omega
  have := le_sum (·.refs h) hx
  omega

lemma released_modify {f : Entry → Entry} (hh : u.at? h = some e)
    (hf : (f e).payload = e.payload) (g k : Handle) :
    (u.modify h.slot f).released g k = u.released g k := by
  unfold released
  have hs := sum_modify (·.heldFor g k) hh f
  rw [hf] at hs
  rw [Nat.add_right_cancel hs, at?_modify hh]
  split_ifs with hg
  · subst hg
    simp [hh, hf]
  · rfl

/-- What a surviving entry owns is not changed by a retirement. -/
lemma released_freed {held : Option Hold} {g : Handle} (hi : Inv (own + (Value.heap h).refs) held u)
    (he : u.at? h = some e) (hg : g ≠ h)
    (others : ∀ k, k ≠ h → t.at? k = (u.at? k).map (survivor e k))
    (sums : ∀ φ : Payload → Nat, match e.payload.restores with
      | none => t.sum φ + φ e.payload = u.sum φ
      | some (_, values) =>
          t.sum φ + φ e.payload + φ (.moved .vec) = u.sum φ + φ (.list .vec values))
    (k : Handle) : t.released g k = u.released g k := by
  have hsum := sums (·.heldFor g k)
  unfold released
  rw [others g hg]
  rcases hr : e.payload.restores with _ | ⟨c, values⟩
  · simp only [hr] at hsum
    have h0 : e.payload.heldFor g k = 0 := by simp [Payload.heldFor, hr]
    have hpay : ∀ x, (survivor e g x).payload = x.payload := fun x => by
      simp [survivor, settle, hr, relinked]
    rcases u.at? g with _ | x
    · simp only [Option.map_none, Option.elim_none]
      omega
    · simp only [Option.map_some, Option.elim_some, hpay]
      omega
  · simp only [hr] at hsum
    have hm : (Payload.moved Ty.vec).heldFor g k = 0 := rfl
    have hl : (Payload.list Ty.vec values).heldFor g k = 0 := rfl
    by_cases hc : c = g
    · subst hc
      have h0 : e.payload.heldFor c k = refsIn values.items k := by simp [Payload.heldFor, hr]
      rcases hx : u.at? c with _ | x
      · -- The guard owns a reference to its vector, so the vector is live.
        have hcx : e.payload.exclusive = some c := by
          cases hp : e.payload <;> simp [hp, Payload.restores] at hr
          simp [Payload.exclusive, hr]
        have hle := e.payload.leases_add_holds_le_refs c
        have hone : e.payload.holds c = 1 := if_pos hcx
        have htot := le_sum (·.refs c) he
        obtain ⟨y, hy⟩ := hi.counts.live_of_refs (k := c) (by omega)
        rw [hx] at hy
        cases hy
      · have hcx : e.payload.exclusive = some c := by
          cases hp : e.payload <;> simp [hp, Payload.restores] at hr
          simp [Payload.exclusive, hr]
        have hone : e.payload.holds c = 1 := if_pos hcx
        have htot := le_sum (·.holds c) he
        have hmoved : x.payload = .moved .vec := by
          rcases hi.leases c x hx with ⟨a, -, -⟩ | ⟨-, -, -, d⟩
          · omega
          · exact d
        have hnew : (survivor e c x).payload = .list .vec values := by
          simp [survivor, settle, hr]
        simp only [Option.map_some, Option.elim_some, hnew, hmoved]
        have h1 : (Payload.list Ty.vec values).detach.refs k = refsIn values.items k := rfl
        have h2 : (Payload.moved Ty.vec).detach.refs k = 0 := rfl
        omega
    · have h0 : e.payload.heldFor g k = 0 := by simp [Payload.heldFor, hr, hc]
      have hpay : ∀ x, (survivor e g x).payload = x.payload := fun x => by
        simp [survivor, settle, hr, hc, relinked]
      rcases u.at? g with _ | x
      · simp only [Option.map_none, Option.elim_none]
        omega
      · simp only [Option.map_some, Option.elim_some, hpay]
        omega

/-- Every release of the cascade keeps the account. -/
lemma cascading_follows (s : Store) (v : Value) (own : Handle → Nat) (held : Option Hold) :
    Follows own held (Cascading s v) where
  pop := fun q u w hc => ⟨hc.fewer, hc.owned, hc.counted, hc.least⟩
  step := by
    intro h u t hi _ hstep hc
    cases hstep with
    | lowered e he h2 ht =>
        subst ht
        have hsome : ∀ g, ((u.modify h.slot fun e => { e with strong := e.strong - 1 }).at? g).isSome =
            (u.at? g).isSome := by
          intro g
          rw [at?_modify he]
          split_ifs with hg
          · rw [hg, he]
            rfl
          · rfl
        have hgone : ∀ g, GoneIn s (u.modify h.slot fun e => { e with strong := e.strong - 1 }) g ↔
            GoneIn s u g := by
          intro g
          have := hsome g
          unfold GoneIn
          rw [← Option.isSome_eq_false_iff.trans Option.isNone_iff_eq_none,
            ← Option.isSome_eq_false_iff.trans Option.isNone_iff_eq_none, this]
        refine ⟨fun g hg => hc.fewer g (hsome g ▸ hg), fun g hg k => ?_, fun k => ?_,
          fun F hF g hg => hc.least F hF g ((hgone g).1 hg)⟩
        · rw [released_modify he rfl]
          exact hc.owned g (hsome g ▸ hg) k
        · have hcount := hc.counted k
          rw [Pi.add_apply] at hcount
          rw [dropped_congr (fun g _ => hgone g)]
          change s.strongAt k + refsIn u.work k = _
          by_cases hk : k = h
          · subst hk
            rw [strongAt_of_at? (at?_modify_self he _)]
            rw [strongAt_of_at? he, Value.refs_self] at hcount
            simp only
            omega
          · have : (u.modify h.slot fun e => { e with strong := e.strong - 1 }).strongAt k =
                u.strongAt k := by
              unfold strongAt
              rw [at?_modify_of_ne he hk]
            rw [Value.refs_of_ne (Ne.symm hk)] at hcount
            omega
    | freed e he h1 gone others sums work _ _ _ _ =>
        have hlive : (s.at? h).isSome = true := hc.fewer h (by rw [he]; rfl)
        have hnot : ¬ GoneIn s u h := fun hg => by
          rw [GoneIn, he] at hg
          cases hg.2
        have hgone : ∀ g, GoneIn s t g ↔ GoneIn s u g ∨ g = h := by
          intro g
          unfold GoneIn
          by_cases hg : g = h
          · subst hg
            simp [gone, hlive]
          · rw [others g hg]
            simp [hg]
        have howned : ∀ k, s.released h k = e.payload.detach.refs k := by
          intro k
          rw [← hc.owned h (by rw [he]; rfl) k]
          unfold released
          rw [sum_heldFor_eq_zero hi he h1, he]
          rfl
        refine ⟨fun g hg => ?_, fun g hg k => ?_, fun k => ?_, fun F hF g hg => ?_⟩
        · by_cases hgh : g = h
          · rw [hgh]
            exact hlive
          · rw [others g hgh] at hg
            exact hc.fewer g (by simpa using hg)
        · have hgh : g ≠ h := by
            rintro rfl
            rw [gone] at hg
            cases hg
          rw [released_freed hi he hgh others sums]
          rw [others g hgh] at hg
          exact hc.owned g (by simpa using hg) k
        · have hcount := hc.counted k
          rw [Pi.add_apply] at hcount
          rw [dropped_congr (fun g _ => hgone g), dropped_insert hlive hnot, howned, work,
            refsIn_append, refsIn_queued]
          change _ + (e.payload.detach.refs k + _) = _
          by_cases hk : k = h
          · subst hk
            have h0 : t.strongAt k = 0 := by
              unfold strongAt
              rw [gone]
              rfl
            rw [strongAt_of_at? he, Value.refs_self] at hcount
            omega
          · have : t.strongAt k = u.strongAt k := by
              unfold strongAt
              rw [others k hk]
              rcases u.at? k <;> rfl
            rw [Value.refs_of_ne (Ne.symm hk)] at hcount
            omega
        · rcases (hgone g).1 hg with hg | rfl
          · exact hc.least F hF g hg
          · refine hF g hlive ?_
            have hcount := hc.counted g
            rw [Pi.add_apply, strongAt_of_at? he, Value.refs_self] at hcount
            have := dropped_mono (s := s) (hc.least F hF) g
            omega

/-- The entries a release frees: the least set closed under losing the last reference.  The
counts of all others fall by exactly what was dropped to them and stay positive. -/
lemma release_frees {held : Option Hold} {v : Value} (hi : Inv (own + v.refs) held s)
    (hw : s.work = []) (hheld : ∀ d ∈ held, 1 ≤ own d.handle) :
    wp (release v)
      (fun _ t => Inv own held t ∧ t.work = [] ∧
        (∀ g, (t.at? g).isSome = true → (s.at? g).isSome = true) ∧
        (∀ k, s.strongAt k = t.strongAt k + v.refs k + s.dropped (GoneIn s t) k) ∧
        ∀ F, s.ClosedUnder v F → ∀ g, GoneIn s t g → F g)
      (fun _ _ => False) s := by
  have hstart : Cascading s v (v.refs + refsIn s.work) s := by
    have hzero : v.refs + refsIn s.work = v.refs := by
      funext k
      simp [hw]
    rw [hzero]
    exact cascading_start s v
  refine wp_mono (release_follows (cascading_follows s v own held) hi hheld hstart) ?_
    fun _ _ h => h
  rintro - t ⟨hit, hwt, hc⟩
  exact ⟨hit, hwt, hc.fewer, hc.counted, hc.least⟩

end Store

end Rnx
