import Rnx.Host.Lifecycle

/-!
# The registry of a context

The registry refers to exactly the operations that own a future.  `Table` says so, together with
what keeps it true: keys belong to one value each and are below the next one.  Every step of the
machine keeps it.
-/

namespace Rnx

namespace Host.Lifecycle

variable {s t : System} {r : State} {o o' : Owner} {i j k : Nat} {x : Option Tracked}
  {which : Owner → Bool} {drops : Nat → Dropped} {dropped : Dropped} {ts : List (Option Tracked)}

/-! ## Reading the tracked values -/

lemma at?_eq_some {y : Tracked} : s.at? i = some y ↔ s.tracked[i]? = some (some y) := by
  unfold System.at?
  cases s.tracked[i]? with
  | none => simp
  | some z => simp

lemma lt_of_at? {y : Tracked} (h : s.at? i = some y) : i < s.tracked.length :=
  (List.getElem?_eq_some_iff.1 (at?_eq_some.1 h)).1

lemma at?_set (hi : i < s.tracked.length) (j : Nat) :
    System.at? ⟨r, s.tracked.set i x⟩ j = if i = j then x else s.at? j := by
  unfold System.at?
  rw [List.getElem?_set]
  split_ifs
  · rfl
  · rfl

lemma at?_append (y : Tracked) (j : Nat) :
    System.at? ⟨r, s.tracked ++ [some y]⟩ j = if j = s.tracked.length then some y else s.at? j := by
  unfold System.at?
  split_ifs with hj
  · rw [hj, List.getElem?_concat_length]
    rfl
  · rcases Nat.lt_or_gt_of_ne hj with hlt | hgt
    · rw [List.getElem?_append_left hlt]
    · rw [List.getElem?_eq_none (by rw [List.length_append]; exact hgt),
        List.getElem?_eq_none (by omega)]

/-! ## Revoking -/

/-- A tracked value after a revocation of the owners `which` picks. -/
def Tracked.spend (which : Owner → Bool) : Tracked → Tracked
  | .owner o => .owner (if which o = true then { o with future := false } else o)
  | .error message => .error message

@[simp] lemma dispose_owners (taken : Bool) :
    (dispose o taken dropped r).owners = r.owners.filter (· != o.key) := by
  cases taken <;> cases dropped <;> rfl

/-- Disposing of a future changes the registry and, when it panics, the failure. -/
lemma dispose_eq (taken : Bool) : dispose o taken dropped r =
    { r with
      owners := r.owners.filter (· != o.key)
      failure := (dispose o taken dropped r).failure } := by
  cases taken <;> cases dropped <;> rfl

lemma revokeEach_tracked : (revokeEach which drops ts r).2 =
    ts.map (Option.map (Tracked.spend which)) := by
  induction ts generalizing r with
  | nil => rfl
  | cons x ts ih =>
      cases x with
      | none =>
          rw [List.map_cons, ← ih]
          rfl
      | some y =>
          cases y with
          | error message =>
              rw [List.map_cons, ← ih]
              rfl
          | owner o =>
              unfold revokeEach
              by_cases hw : which o = true
              · simp [hw, ih, Tracked.spend, Owner.revoke]
              · simp [hw, ih, Tracked.spend]

/-- The keys of the owners `which` picks leave the registry, and nothing else changes but the
failure. -/
lemma revokeEach_state (which : Owner → Bool) (drops : Nat → Dropped) (ts : List (Option Tracked))
    (r : State) : ∃ owners failure,
    (revokeEach which drops ts r).1 = { r with owners := owners, failure := failure } ∧
      ∀ k, k ∈ owners ↔ k ∈ r.owners ∧
        ∀ o, some (.owner o) ∈ ts → which o = true → o.key ≠ k := by
  induction ts generalizing r with
  | nil => exact ⟨r.owners, r.failure, rfl, by simp⟩
  | cons x ts ih =>
      cases x with
      | none =>
          obtain ⟨owners, failure, heq, hmem⟩ := ih r
          exact ⟨owners, failure, heq, by simpa using hmem⟩
      | some y =>
          cases y with
          | error message =>
              obtain ⟨owners, failure, heq, hmem⟩ := ih r
              exact ⟨owners, failure, heq, by simpa using hmem⟩
          | owner o =>
              by_cases hw : which o = true
              · obtain ⟨owners, failure, heq, hmem⟩ := ih (o.revoke (drops o.key) r).1
                refine ⟨owners, failure, ?_, ?_⟩
                · have hrun : (revokeEach which drops (some (.owner o) :: ts) r).1 =
                      (revokeEach which drops ts (o.revoke (drops o.key) r).1).1 := by
                    rw [revokeEach, if_pos hw]
                  rw [hrun, heq, Owner.revoke, dispose_eq]
                · intro k
                  rw [hmem, Owner.revoke, dispose_owners, List.mem_filter]
                  constructor
                  · rintro ⟨⟨hk, hne⟩, hrest⟩
                    refine ⟨hk, ?_⟩
                    intro o' ho' hw'
                    obtain heq | hin := List.mem_cons.1 ho'
                    · obtain rfl : o' = o := by simpa using heq
                      exact Ne.symm (bne_iff_ne.1 hne)
                    · exact hrest o' hin hw'
                  · rintro ⟨hk, hall⟩
                    refine ⟨⟨hk, ?_⟩, fun o' ho' => hall o' (List.mem_cons_of_mem _ ho')⟩
                    exact bne_iff_ne.2 (Ne.symm (hall o List.mem_cons_self hw))
              · obtain ⟨owners, failure, heq, hmem⟩ := ih r
                refine ⟨owners, failure, ?_, ?_⟩
                · rw [← heq, revokeEach, if_neg hw]
                · intro k
                  rw [hmem]
                  constructor
                  · rintro ⟨hk, hrest⟩
                    refine ⟨hk, ?_⟩
                    intro o' ho' hw'
                    obtain heq | hin := List.mem_cons.1 ho'
                    · obtain rfl : o' = o := by simpa using heq
                      exact absurd hw' hw
                    · exact hrest o' hin hw'
                  · rintro ⟨hk, hall⟩
                    exact ⟨hk, fun o' ho' => hall o' (List.mem_cons_of_mem _ ho')⟩

/-- A failure once recorded stays. -/
lemma dispose_failure (taken : Bool) {error : String} (h : r.failure = some error) :
    (dispose o taken dropped r).failure = some error := by
  cases taken <;> cases dropped <;> simp [dispose, h]

lemma revokeEach_failure {error : String} (h : r.failure = some error) :
    (revokeEach which drops ts r).1.failure = some error := by
  induction ts generalizing r with
  | nil => exact h
  | cons x ts ih =>
      cases x with
      | none => exact ih h
      | some y =>
          cases y with
          | error message => exact ih h
          | owner o =>
              unfold revokeEach
              split_ifs
              · exact ih (dispose_failure _ h)
              · exact ih h

/-- What a revocation does: the picked owners lose their futures and their keys. -/
structure Revoked (which : Owner → Bool) (s t : System) : Prop where
  tracked : t.tracked = s.tracked.map (Option.map (Tracked.spend which))
  state : ∃ owners failure, t.state = { s.state with owners := owners, failure := failure }
  owners : ∀ k, k ∈ t.state.owners ↔ k ∈ s.state.owners ∧
    ∀ i o, s.at? i = some (.owner o) → which o = true → o.key ≠ k

/-- The owners `State::revoke` picks. -/
def picks (all : Bool) (s : State) (o : Owner) : Bool :=
  s.owners.contains o.key && (all || o.stamp == s.generation)

lemma revoke_revoked (all : Bool) (drops : Nat → Dropped) (s : System) :
    Revoked (picks all s.state) s (revoke all drops s) := by
  obtain ⟨owners, failure, heq, hmem⟩ := revokeEach_state (picks all s.state) drops s.tracked s.state
  refine ⟨revokeEach_tracked, ⟨owners, failure, heq⟩, ?_⟩
  intro k
  have howners : (revoke all drops s).state.owners = owners := congrArg State.owners heq
  rw [howners, hmem]
  refine and_congr_right fun _ => ?_
  constructor
  · intro h i o hat
    exact h o (List.mem_of_getElem? (at?_eq_some.1 hat))
  · intro h o ho
    obtain ⟨i, hi⟩ := List.getElem?_of_mem ho
    exact h i o (at?_eq_some.2 hi)

lemma Revoked.at? (h : Revoked which s t) (i : Nat) :
    t.at? i = (s.at? i).map (Tracked.spend which) := by
  unfold System.at?
  rw [h.tracked, List.getElem?_map]
  cases s.tracked[i]? with
  | none => rfl
  | some x => rfl

lemma Revoked.owner (h : Revoked which s t) (hat : t.at? i = some (.owner o)) :
    ∃ o', s.at? i = some (.owner o') ∧
      o = if which o' = true then { o' with future := false } else o' := by
  rw [h.at?, Option.map_eq_some_iff] at hat
  obtain ⟨y, hy, hspend⟩ := hat
  cases y with
  | error message => cases hspend
  | owner o' =>
      refine ⟨o', hy, ?_⟩
      exact (Tracked.owner.inj hspend).symm

/-! ## The invariant -/

/-- The registry is the set of keys of the owners with a future; keys belong to one value each and
are below the next one. -/
structure Table (s : System) : Prop where
  registry : ∀ k, k ∈ s.state.owners ↔
    ∃ i o, s.at? i = some (.owner o) ∧ o.key = k ∧ o.future = true
  distinct : ∀ i j o o', s.at? i = some (.owner o) → s.at? j = some (.owner o') →
    o.key = o'.key → i = j
  key_lt : ∀ i o, s.at? i = some (.owner o) → o.key < s.state.next
  stamp_le : ∀ i o, s.at? i = some (.owner o) → o.stamp ≤ s.state.generation
  started : s.state.active = true → 1 ≤ s.state.generation

/-- Besides, a retired context owns no future. -/
structure Inv (s : System) : Prop extends Table s where
  retired : s.state.retired = true → ∀ i o, s.at? i = some (.owner o) → o.future = false

/-- An owner of a future is in the registry, and only such owners are. -/
lemma Table.contains (hi : Table s) (hat : s.at? i = some (.owner o)) :
    s.state.owners.contains o.key = o.future := by
  rw [Bool.eq_iff_iff, List.contains_iff_mem, hi.registry]
  constructor
  · rintro ⟨j, o', hat', hkey, hfuture⟩
    obtain rfl := hi.distinct i j o o' hat hat' hkey.symm
    rw [hat] at hat'
    obtain rfl : o = o' := by simpa using hat'
    exact hfuture
  · intro hfuture
    exact ⟨i, o, hat, rfl, hfuture⟩

lemma new_inv : Inv .new where
  registry k := by simp [System.new, System.at?]
  distinct i j o o' h := by simp [System.new, System.at?] at h
  key_lt i o h := by simp [System.new, System.at?] at h
  stamp_le i o h := by simp [System.new, System.at?] at h
  started h := by cases h
  retired h := by cases h

/-- A revocation keeps the table. -/
lemma Table.revoked (hi : Table s) (h : Revoked which s t) : Table t := by
  obtain ⟨owners, failure, hstate⟩ := h.state
  have hkeep : ∀ i o, t.at? i = some (.owner o) →
      ∃ o', s.at? i = some (.owner o') ∧ o.key = o'.key ∧ o.stamp = o'.stamp := by
    intro i o hat
    obtain ⟨o', hat', rfl⟩ := h.owner hat
    refine ⟨o', hat', ?_⟩
    split_ifs <;> exact ⟨rfl, rfl⟩
  constructor
  · intro k
    rw [h.owners, hi.registry]
    constructor
    · rintro ⟨⟨i, o, hat, rfl, hfuture⟩, hnone⟩
      refine ⟨i, o, ?_, rfl, hfuture⟩
      rw [h.at?, hat]
      have hw : ¬ which o = true := fun hw => hnone i o hat hw rfl
      simp [Tracked.spend, hw]
    · rintro ⟨i, o, hat, rfl, hfuture⟩
      obtain ⟨o', hat', ho⟩ := h.owner hat
      have hw : ¬ which o' = true := by
        intro hw
        rw [ho, if_pos hw] at hfuture
        cases hfuture
      rw [if_neg hw] at ho
      subst ho
      refine ⟨⟨i, o, hat', rfl, hfuture⟩, ?_⟩
      intro j o'' hat'' hw'' hkey
      obtain rfl := hi.distinct j i o'' o hat'' hat' hkey
      rw [hat'] at hat''
      obtain rfl : o = o'' := by simpa using hat''
      exact hw hw''
  · intro i j o o' hat hat' hkey
    obtain ⟨p, hp, hpk, -⟩ := hkeep i o hat
    obtain ⟨p', hp', hpk', -⟩ := hkeep j o' hat'
    exact hi.distinct i j p p' hp hp' (by rw [← hpk, ← hpk', hkey])
  · intro i o hat
    obtain ⟨p, hp, hpk, -⟩ := hkeep i o hat
    rw [hpk, hstate]
    exact hi.key_lt i p hp
  · intro i o hat
    obtain ⟨p, hp, -, hps⟩ := hkeep i o hat
    rw [hps, hstate]
    exact hi.stamp_le i p hp
  · intro hactive
    rw [hstate] at hactive ⊢
    exact hi.started hactive

/-- A revocation of all owners leaves none with a future. -/
lemma Table.revoke_all (hi : Table s) (hat : (revoke true drops s).at? i = some (.owner o)) :
    o.future = false := by
  obtain ⟨o', hat', ho⟩ := (revoke_revoked true drops s).owner hat
  by_cases hw : picks true s.state o' = true
  · rw [ho, if_pos hw]
  · rw [ho, if_neg hw]
    have hcontains := hi.contains hat'
    rw [picks, Bool.true_or, Bool.and_true, hcontains] at hw
    simpa using hw

/-- The table does not depend on the flags of the context. -/
lemma Table.flags (hi : Table s) {active retired : Bool}
    (hactive : active = true → 1 ≤ s.state.generation) :
    Table { s with state := { s.state with active := active, retired := retired } } where
  registry := hi.registry
  distinct := hi.distinct
  key_lt := hi.key_lt
  stamp_le := hi.stamp_le
  started := hactive

lemma Table.retire (hi : Table s) : Inv (retire drops s) := by
  have hflags : Table { s with state := { s.state with retired := true } } := hi.flags hi.started
  refine ⟨hflags.revoked (revoke_revoked true drops _), ?_⟩
  intro _ i o hat
  exact hflags.revoke_all hat

lemma retire_retired : (Lifecycle.retire drops s).state.retired = true := by
  obtain ⟨owners, failure, h⟩ := (revoke_revoked true drops
    { s with state := { s.state with retired := true } }).state
  exact congrArg State.retired h

/-- A revocation leaves an unretired context unretired, and a retired one retired. -/
lemma Inv.revoke (hi : Inv s) (all : Bool) : Inv (revoke all drops s) := by
  have hrev := revoke_revoked all drops s
  obtain ⟨owners, failure, hstate⟩ := hrev.state
  refine ⟨hi.toTable.revoked hrev, ?_⟩
  intro hretired i o hat
  rw [hstate] at hretired
  obtain ⟨o', hat', rfl⟩ := hrev.owner hat
  split_ifs
  · rfl
  · exact hi.retired hretired i o' hat'

lemma Inv.settle (hi : Inv s) : Inv (settle drops s).1 := by
  unfold Lifecycle.settle
  split_ifs
  · exact hi.toTable.retire
  · exact hi

/-- A recorded failure retires the context, and is reported. -/
lemma settle_failed {error : String} (h : s.state.failure = some error) :
    settle drops s = (retire drops s, .error error) := by
  have hkeep : (retire drops s).state.failure = some error := revokeEach_failure h
  simp only [settle, h, Option.isSome_some, if_true, result, hkeep]

/-- A failure that is reported has retired the context; without one nothing changed. -/
lemma settle_cases (drops : Nat → Dropped) (s : System) :
    (settle drops s = (s, .ok ()) ∧ s.state.failure = none) ∨
      ∃ error, (settle drops s).2 = .error error ∧ (settle drops s).1 = retire drops s := by
  cases hf : s.state.failure with
  | none => exact .inl ⟨by simp [settle, hf, result], rfl⟩
  | some error => exact .inr ⟨error, by rw [settle_failed hf], by rw [settle_failed hf]⟩

/-! ## Every step keeps the invariant -/

lemma Inv.begin (hi : Inv s) : Inv ⟨(begin s.state).1, s.tracked⟩ := by
  unfold Lifecycle.begin
  split
  · exact hi
  · split_ifs with hret
    · exact hi
    · split
      · exact hi
      · next generation hgen =>
        have hsucc : generation = s.state.generation + 1 := by
          unfold checkedSucc at hgen
          split_ifs at hgen
          exact (Option.some.inj hgen).symm
        constructor
        · constructor
          · exact hi.registry
          · exact hi.distinct
          · exact hi.key_lt
          · intro i o hat
            change o.stamp ≤ generation
            have := hi.stamp_le i o hat
            omega
          · intro _
            change 1 ≤ generation
            omega
        · intro hret'
          exact absurd hret' hret

lemma Inv.finish (hi : Inv s) (failed : Bool) : Inv (finish failed drops s).1 := by
  have hidle : Inv { s with state := { s.state with active := false } } :=
    ⟨hi.toTable.flags (fun h => by cases h), hi.retired⟩
  unfold Lifecycle.finish
  apply Inv.settle
  split_ifs
  · exact hidle.revoke false
  · exact hidle

lemma Inv.clear (hi : Inv s) : Inv (clear drops s).1 := (hi.revoke true).settle

lemma Inv.close (hi : Inv s) : Inv (close drops s).1 := hi.toTable.retire

/-- A value that holds no future, or that an owner turned into, in place of that owner. -/
lemma Inv.replace (hi : Inv s) (hat : s.at? i = some (.owner o)) (owners : List Nat)
    (failure : Option String)
    (hx : ∀ o', x = some (.owner o') → o'.key = o.key ∧ o'.stamp ≤ s.state.generation ∧
      (o'.future = true → o.future = true))
    (howners : ∀ k, k ∈ owners ↔ k ∈ s.state.owners ∧
      (k = o.key → ∃ o', x = some (.owner o') ∧ o'.future = true)) :
    Inv ⟨{ s.state with owners := owners, failure := failure }, s.tracked.set i x⟩ := by
  have hget := fun j => at?_set (r := { s.state with owners := owners, failure := failure })
    (x := x) (lt_of_at? hat) j
  have hback : ∀ j o', System.at? ⟨{ s.state with owners := owners, failure := failure },
      s.tracked.set i x⟩ j = some (.owner o') → ∃ p, s.at? j = some (.owner p) ∧ o'.key = p.key ∧
        o'.stamp ≤ s.state.generation ∧ (o'.future = true → p.future = true) ∧ (j ≠ i → o' = p) := by
    intro j o' h
    rw [hget] at h
    split_ifs at h with hj
    · subst hj
      obtain ⟨hk, hs, hf⟩ := hx o' h
      exact ⟨o, hat, hk, hs, hf, fun hne => absurd rfl hne⟩
    · exact ⟨o', h, rfl, hi.stamp_le j o' h, id, fun _ => rfl⟩
  constructor
  · constructor
    · intro k
      change k ∈ owners ↔ _
      rw [howners, hi.registry]
      constructor
      · rintro ⟨⟨j, p, hp, rfl, hfuture⟩, hsame⟩
        by_cases hj : i = j
        · subst hj
          rw [hat] at hp
          obtain rfl : o = p := by simpa using hp
          obtain ⟨o', hx', hf'⟩ := hsame rfl
          exact ⟨i, o', by rw [hget, if_pos rfl, hx'], (hx o' hx').1, hf'⟩
        · exact ⟨j, p, by rw [hget, if_neg hj, hp], rfl, hfuture⟩
      · rintro ⟨j, o', hat', rfl, hfuture⟩
        obtain ⟨p, hp, hk, -, hf, hne⟩ := hback j o' hat'
        refine ⟨⟨j, p, hp, hk.symm, hf hfuture⟩, ?_⟩
        intro hkey
        obtain rfl := hi.distinct j i p o hp hat (by rw [← hk, hkey])
        rw [hget, if_pos rfl] at hat'
        exact ⟨o', hat', hfuture⟩
    · intro j l o' p' hj hl hkey
      obtain ⟨p, hp, hpk, -⟩ := hback j o' hj
      obtain ⟨q, hq, hqk, -⟩ := hback l p' hl
      exact hi.distinct j l p q hp hq (by rw [← hpk, ← hqk, hkey])
    · intro j o' hj
      obtain ⟨p, hp, hpk, -⟩ := hback j o' hj
      rw [hpk]
      exact hi.key_lt j p hp
    · intro j o' hj
      obtain ⟨p, -, -, hs, -⟩ := hback j o' hj
      exact hs
    · exact hi.started
  · intro hret j o' hj
    obtain ⟨p, hp, -, -, hf, -⟩ := hback j o' hj
    have hnone := hi.retired hret j p hp
    by_contra hfuture
    rw [hf (by simpa using hfuture)] at hnone
    cases hnone

/-- An owner that gives up its future, or is dropped, leaves the registry. -/
lemma Inv.disposed (hi : Inv s) (hat : s.at? i = some (.owner o)) (taken : Bool)
    (hx : ∀ o', x = some (.owner o') → o'.key = o.key ∧ o'.stamp ≤ s.state.generation ∧
      o'.future = false) (p : Owner) (hp : p.key = o.key) :
    Inv ⟨dispose p taken dropped s.state, s.tracked.set i x⟩ := by
  rw [dispose_eq]
  apply hi.replace hat _ _
  · intro o' ho'
    obtain ⟨hk, hs, hf⟩ := hx o' ho'
    exact ⟨hk, hs, fun h => by rw [hf] at h; cases h⟩
  · intro k
    rw [List.mem_filter, hp]
    refine and_congr_right fun _ => ?_
    constructor
    · intro hne heq
      exact absurd heq (bne_iff_ne.1 hne)
    · intro h
      apply bne_iff_ne.2
      intro heq
      obtain ⟨o', ho', hf⟩ := h heq
      rw [(hx o' ho').2.2] at hf
      cases hf

/-- A value that is refused changes nothing but the failure of the context. -/
lemma Inv.same (hi : Inv s) (hat : s.at? i = some (.owner o)) (stamp : Nat)
    (hstamp : stamp ≤ s.state.generation) :
    Inv ⟨s.state, s.tracked.set i (some (.owner { o with stamp := stamp }))⟩ := by
  apply hi.replace hat s.state.owners s.state.failure
  · intro o' ho'
    obtain rfl : { o with stamp := stamp } = o' := by simpa using ho'
    exact ⟨rfl, hstamp, id⟩
  · intro k
    refine ⟨fun hk => ⟨hk, ?_⟩, And.left⟩
    rintro rfl
    refine ⟨_, rfl, ?_⟩
    change o.future = true
    rw [← hi.contains hat]
    exact List.contains_iff_mem.2 hk

lemma set_self {y : Tracked} (hat : s.at? i = some y) : s.tracked.set i (some y) = s.tracked := by
  apply List.ext_getElem?
  intro j
  rw [List.getElem?_set]
  split_ifs with hj hlt
  · rw [← hj, at?_eq_some.1 hat]
  · exact absurd (lt_of_at? hat) (hj ▸ hlt)
  · rfl

lemma Inv.poll {y : Tracked} (hi : Inv s) (hat : s.at? i = some y) (native : Poll)
    (dropped : Dropped) : Inv ⟨(poll y native dropped s.state).1,
      s.tracked.set i (some (poll y native dropped s.state).2.1)⟩ := by
  cases y with
  | error message =>
      change Inv ⟨s.state, s.tracked.set i (some (.error message))⟩
      rw [set_self hat]
      exact hi
  | owner o =>
      unfold Lifecycle.poll
      by_cases hret : s.state.retired = true
      · simp only [if_pos hret]
        refine hi.disposed hat _ ?_ o rfl
        intro o' ho'
        obtain rfl : (o.revoke dropped s.state).2 = o' := by simpa using ho'
        exact ⟨rfl, hi.stamp_le i o hat, rfl⟩
      · simp only [if_neg hret]
        by_cases hf : o.future = false
        · simp only [if_pos hf]
          exact hi.same hat _ (Nat.le_refl _)
        · simp only [if_neg hf]
          cases native with
          | pending => exact hi.same hat _ (Nat.le_refl _)
          | ready result =>
              refine hi.disposed hat _ ?_ { o with stamp := s.state.generation } rfl
              intro o' ho'
              obtain rfl : { o with future := false, stamp := s.state.generation } = o' := by
                simpa using ho'
              exact ⟨rfl, Nat.le_refl _, rfl⟩

/-- Values without an owner do not matter. -/
lemma Inv.congr (hi : Inv s) (hat : ∀ j o, t.at? j = some (.owner o) ↔ s.at? j = some (.owner o))
    (howners : ∀ k, k ∈ t.state.owners ↔ k ∈ s.state.owners)
    (hstate : ∃ owners failure, t.state = { s.state with owners := owners, failure := failure }) :
    Inv t := by
  obtain ⟨owners, failure, hstate⟩ := hstate
  constructor
  · constructor
    · intro k
      rw [howners, hi.registry]
      simp only [hat]
    · intro i j o o' h h'
      exact hi.distinct i j o o' ((hat i o).1 h) ((hat j o').1 h')
    · intro i o h
      rw [hstate]
      exact hi.key_lt i o ((hat i o).1 h)
    · intro i o h
      rw [hstate]
      exact hi.stamp_le i o ((hat i o).1 h)
    · rw [hstate]
      exact hi.started
  · intro hret i o h
    rw [hstate] at hret
    exact hi.retired hret i o ((hat i o).1 h)

lemma Inv.drop {y : Tracked} (hi : Inv s) (hat : s.at? i = some y) (dropped : Dropped) :
    Inv ⟨dropTracked y dropped s.state, s.tracked.set i none⟩ := by
  cases y with
  | error message =>
      apply hi.congr
      · intro j o
        rw [at?_set (lt_of_at? hat)]
        split_ifs with hj
        · rw [← hj, hat]
          simp
        · rfl
      · exact fun k => Iff.rfl
      · exact ⟨_, _, rfl⟩
  | owner o => exact hi.disposed hat _ (fun o' ho' => by cases ho') o rfl

/-- A refused operation leaves the registry alone. -/
lemma Inv.refused (hi : Inv s) (message : String)
    (howners : ∀ k, k ∈ r.owners ↔ k ∈ s.state.owners)
    (hstate : ∃ owners failure, r = { s.state with owners := owners, failure := failure }) :
    Inv ⟨r, s.tracked ++ [some (.error message)]⟩ := by
  apply hi.congr
  · intro j o
    rw [at?_append]
    split_ifs with hj
    · rw [hj]
      constructor
      · intro h
        cases h
      · intro h
        exact absurd (lt_of_at? h) (Nat.lt_irrefl _)
    · rfl
  · exact howners
  · exact hstate

/-- The context after an operation was given the next key. -/
def State.keyed (s : State) : State :=
  { s with next := s.next + 1, owners := s.owners.orderedInsert (· ≤ ·) s.next }

lemma Inv.admitted (hi : Inv s) (name : String) (hret : ¬ s.state.retired = true) :
    Inv ⟨s.state.keyed, s.tracked ++ [some (.owner ⟨true, name, 0, s.state.next⟩)]⟩ := by
  have hget := fun j => at?_append (s := s) (r := s.state.keyed)
    (.owner ⟨true, name, 0, s.state.next⟩) j
  have hold : ∀ {j o}, s.at? j = some (.owner o) → j ≠ s.tracked.length :=
    fun h => Nat.ne_of_lt (lt_of_at? h)
  have hback : ∀ j o', System.at?
      ⟨s.state.keyed, s.tracked ++ [some (.owner ⟨true, name, 0, s.state.next⟩)]⟩ j =
      some (.owner o') → (j = s.tracked.length ∧ o' = ⟨true, name, 0, s.state.next⟩) ∨
        s.at? j = some (.owner o') := by
    intro j o' h
    rw [hget] at h
    split_ifs at h with hj
    · exact .inl ⟨hj, by simpa using h.symm⟩
    · exact .inr h
  constructor
  · constructor
    · intro k
      change k ∈ s.state.owners.orderedInsert (· ≤ ·) s.state.next ↔ _
      rw [List.mem_orderedInsert, hi.registry]
      constructor
      · rintro (rfl | ⟨j, o, hat, rfl, hf⟩)
        · exact ⟨s.tracked.length, _, by rw [hget, if_pos rfl], rfl, rfl⟩
        · exact ⟨j, o, by rw [hget, if_neg (hold hat), hat], rfl, hf⟩
      · rintro ⟨j, o', hat, rfl, hf⟩
        obtain ⟨-, rfl⟩ | hat := hback j o' hat
        · exact .inl rfl
        · exact .inr ⟨j, o', hat, rfl, hf⟩
    · intro j l o o' h h' hkey
      obtain ⟨rfl, rfl⟩ | h := hback j o h
      · obtain ⟨rfl, -⟩ | h' := hback l o' h'
        · rfl
        · exact absurd hkey (Nat.ne_of_gt (hi.key_lt l o' h'))
      · obtain ⟨-, rfl⟩ | h' := hback l o' h'
        · exact absurd hkey (Nat.ne_of_lt (hi.key_lt j o h))
        · exact hi.distinct j l o o' h h' hkey
    · intro j o h
      change o.key < s.state.next + 1
      obtain ⟨-, rfl⟩ | h := hback j o h
      · exact Nat.lt_succ_self _
      · exact Nat.lt_succ_of_lt (hi.key_lt j o h)
    · intro j o h
      obtain ⟨-, rfl⟩ | h := hback j o h
      · exact Nat.zero_le _
      · exact hi.stamp_le j o h
    · exact hi.started
  · intro hret'
    exact absurd hret' hret

lemma Inv.track (hi : Inv s) (name : String) (here : Bool) (dropped : Dropped) :
    Inv ⟨(track name here dropped s.state).1,
      s.tracked ++ [some (track name here dropped s.state).2]⟩ := by
  unfold Lifecycle.track
  by_cases hhere : here = false
  · simp only [if_pos hhere]
    exact hi.refused _ (fun k => Iff.rfl) ⟨_, _, rfl⟩
  · by_cases hret : s.state.retired = true
    · simp only [if_neg hhere, if_pos hret]
      exact hi.refused _ (fun k => Iff.rfl) ⟨_, _, rfl⟩
    · simp only [if_neg hhere, if_neg hret]
      cases hnext : checkedSucc s.state.next with
      | none =>
          simp only
          apply hi.refused
          · intro k
            rw [dispose_owners, List.mem_filter]
            refine ⟨And.left, fun hk => ⟨hk, bne_iff_ne.2 ?_⟩⟩
            obtain ⟨i, o, hat, rfl, -⟩ := (hi.registry k).1 hk
            exact Nat.ne_of_lt (hi.key_lt i o hat)
          · rw [dispose_eq]
            exact ⟨_, _, rfl⟩
      | some next =>
          unfold checkedSucc at hnext
          split_ifs at hnext
          obtain rfl := Option.some.inj hnext
          exact hi.admitted name hret

/-- Every step keeps the invariant. -/
lemma next_inv (hi : Inv s) {e : Event} {out : Output} (hstep : next s e = some (t, out)) :
    Inv t := by
  cases e with
  | begin =>
      obtain rfl := (Prod.ext_iff.1 (Option.some.inj hstep)).1
      exact hi.begin
  | finish failed drops =>
      obtain rfl := (Prod.ext_iff.1 (Option.some.inj hstep)).1
      exact hi.finish failed
  | clear drops =>
      obtain rfl := (Prod.ext_iff.1 (Option.some.inj hstep)).1
      exact hi.clear
  | close drops =>
      obtain rfl := (Prod.ext_iff.1 (Option.some.inj hstep)).1
      exact hi.close
  | track name here dropped =>
      obtain rfl := (Prod.ext_iff.1 (Option.some.inj hstep)).1
      exact hi.track name here dropped
  | poll i native dropped =>
      obtain ⟨y, hat, h⟩ := Option.map_eq_some_iff.1 hstep
      obtain rfl := (Prod.ext_iff.1 h).1
      exact hi.poll hat native dropped
  | drop i dropped =>
      obtain ⟨y, hat, h⟩ := Option.map_eq_some_iff.1 hstep
      obtain rfl := (Prod.ext_iff.1 h).1
      exact hi.drop hat dropped

end Host.Lifecycle

end Rnx
