import Rnx.Host.Registry

/-!
# Operations are revoked exactly when they must be

What every run of the machine of `Host.Lifecycle` promises.  The history of a run says which
operations were polled since the last `begin`, which keys were handed out and whether the context
was closed; the generation stamps, the next key and the retired flag are what the context remembers
of it.
-/

namespace Rnx

namespace Host.Lifecycle

/-! ## What the history says -/

/-- The key a step hands out. -/
def Output.key : Output → Option Nat
  | .tracked (.owner o) => some o.key
  | _ => none

/-- The keys handed out. -/
def keysOf (l : List (Event × Output)) : List Nat := l.filterMap (·.2.key)

/-- One step of the record of the values polled in an execution. -/
def record (polled : List Nat) : Event × Output → List Nat
  | (.begin, .done (.ok ())) => []
  | (.poll i _ _, _) => i :: polled
  | _ => polled

/-- The values polled since the last `begin`. -/
def polledSince (l : List (Event × Output)) : List Nat := l.foldl record []

/-- The steps after which nothing is admitted: `close`, and a `finish` or `clear` that reports a
cleanup failure. -/
def closes : Event × Output → Bool
  | (.close _, _) => true
  | (.finish _ _, .done (.error _)) => true
  | (.clear _, .done (.error _)) => true
  | _ => false

variable {s t u : System} {l : List (Event × Output)} {e : Event} {out : Output} {o : Owner}
  {i j : Nat} {drops : Nat → Dropped} {which : Owner → Bool}

@[simp] lemma polledSince_concat (p : Event × Output) :
    polledSince (l ++ [p]) = record (polledSince l) p := by
  simp [polledSince]

/-- What the context remembers of the history. -/
structure History (l : List (Event × Output)) (s : System) : Prop where
  inv : Inv s
  polled_lt : ∀ i ∈ polledSince l, i < s.tracked.length
  stamps : s.state.active = true → s.state.retired = false → ∀ i o,
    s.at? i = some (.owner o) → (o.stamp = s.state.generation ↔ i ∈ polledSince l)
  keys : (keysOf l).Pairwise (· < ·)
  keys_lt : ∀ k ∈ keysOf l, k < s.state.next
  closed : (∃ p ∈ l, closes p = true) → s.state.retired = true

lemma new_history : History [] .new where
  inv := new_inv
  polled_lt i hi := by cases hi
  stamps h := by cases h
  keys := .nil
  keys_lt k hk := by cases hk
  closed h := by
    obtain ⟨p, hp, -⟩ := h
    cases hp

/-! ## Steps that neither begin, admit nor poll -/

/-- A step that hands out nothing and stamps nothing. -/
structure Quiet (s t : System) : Prop where
  generation : t.state.generation = s.state.generation
  next : t.state.next = s.state.next
  active : t.state.active = true → s.state.active = true
  retired : s.state.retired = true → t.state.retired = true
  length : t.tracked.length = s.tracked.length
  owners : ∀ i o', t.at? i = some (.owner o') → ∃ o, s.at? i = some (.owner o) ∧
    o'.stamp = o.stamp ∧ (o'.future = true → o.future = true)
  errors : ∀ i m, t.at? i = some (.error m) → s.at? i = some (.error m)

lemma Quiet.refl (s : System) : Quiet s s where
  generation := rfl
  next := rfl
  active := id
  retired := id
  length := rfl
  owners _ o h := ⟨o, h, rfl, id⟩
  errors _ _ h := h

lemma Quiet.trans (h : Quiet s t) (h' : Quiet t u) : Quiet s u where
  generation := h'.generation.trans h.generation
  next := h'.next.trans h.next
  active ha := h.active (h'.active ha)
  retired hr := h'.retired (h.retired hr)
  length := h'.length.trans h.length
  owners i o hat := by
    obtain ⟨o', hat', hs', hf'⟩ := h'.owners i o hat
    obtain ⟨o'', hat'', hs'', hf''⟩ := h.owners i o' hat'
    exact ⟨o'', hat'', hs'.trans hs'', fun hf => hf'' (hf' hf)⟩
  errors i m hat := h.errors i m (h'.errors i m hat)

lemma Revoked.quiet (h : Revoked which s t) : Quiet s t := by
  obtain ⟨owners, failure, hstate⟩ := h.state
  constructor
  · rw [hstate]
  · rw [hstate]
  · rw [hstate]
    exact id
  · rw [hstate]
    exact id
  · rw [h.tracked, List.length_map]
  · intro i o hat
    obtain ⟨o', hat', rfl⟩ := h.owner hat
    refine ⟨o', hat', ?_⟩
    split_ifs
    · exact ⟨rfl, fun hf => by cases hf⟩
    · exact ⟨rfl, id⟩
  · intro i m hat
    rw [h.at?, Option.map_eq_some_iff] at hat
    obtain ⟨y, hy, hspend⟩ := hat
    cases y with
    | error message => rw [hy, ← hspend, Tracked.spend]
    | owner o => cases hspend

lemma quiet_retire (drops : Nat → Dropped) (s : System) : Quiet s (retire drops s) := by
  refine Quiet.trans ?_ (revoke_revoked true drops _).quiet
  exact ⟨rfl, rfl, id, fun _ => rfl, rfl, fun _ o h => ⟨o, h, rfl, id⟩,
    fun _ _ h => h⟩

lemma quiet_settle (drops : Nat → Dropped) (s : System) : Quiet s (settle drops s).1 := by
  obtain ⟨h, -⟩ | ⟨error, -, h⟩ := settle_cases drops s
  · rw [h]
    exact .refl s
  · rw [h]
    exact quiet_retire drops s

lemma quiet_finish (failed : Bool) (drops : Nat → Dropped) (s : System) :
    Quiet s (finish failed drops s).1 := by
  unfold finish
  refine Quiet.trans ?_ (quiet_settle drops _)
  have hidle : Quiet s { s with state := { s.state with active := false } } :=
    ⟨rfl, rfl, (fun h => by cases h), id, rfl, fun _ o h => ⟨o, h, rfl, id⟩,
    fun _ _ h => h⟩
  split_ifs
  · exact hidle.trans (revoke_revoked false drops _).quiet
  · exact hidle

lemma quiet_clear (drops : Nat → Dropped) (s : System) : Quiet s (clear drops s).1 :=
  (revoke_revoked true drops s).quiet.trans (quiet_settle drops _)

lemma quiet_drop {y : Tracked} (hat : s.at? i = some y) (dropped : Dropped) :
    Quiet s ⟨dropTracked y dropped s.state, s.tracked.set i none⟩ := by
  have howners : ∀ r j o', System.at? ⟨r, s.tracked.set i none⟩ j = some (.owner o') →
      ∃ o, s.at? j = some (.owner o) ∧ o'.stamp = o.stamp ∧
        (o'.future = true → o.future = true) := by
    intro r j o' h
    rw [at?_set (lt_of_at? hat)] at h
    split_ifs at h
    exact ⟨o', h, rfl, id⟩
  have herrors : ∀ r j m, System.at? ⟨r, s.tracked.set i none⟩ j = some (.error m) →
      s.at? j = some (.error m) := by
    intro r j m h
    rw [at?_set (lt_of_at? hat)] at h
    split_ifs at h
    exact h
  have hlen : (s.tracked.set i none).length = s.tracked.length := List.length_set
  cases y with
  | error message => exact ⟨rfl, rfl, id, id, hlen, howners _, herrors _⟩
  | owner o =>
      change Quiet s ⟨dispose o o.future dropped s.state, _⟩
      rw [dispose_eq]
      exact ⟨rfl, rfl, id, id, hlen, howners _, herrors _⟩

/-- The record of a quiet step. -/
lemma History.quiet (h : History l s) (hi : Inv t) (hq : Quiet s t)
    (hrec : record (polledSince l) (e, out) = polledSince l) (hkey : out.key = none)
    (hcloses : closes (e, out) = true → t.state.retired = true) :
    History (l ++ [(e, out)]) t := by
  have hkeys : keysOf (l ++ [(e, out)]) = keysOf l := by
    simp [keysOf, hkey]
  constructor
  · exact hi
  · intro i hmem
    rw [polledSince_concat, hrec] at hmem
    rw [hq.length]
    exact h.polled_lt i hmem
  · intro hactive hret i o hat
    obtain ⟨o', hat', hstamp, -⟩ := hq.owners i o hat
    have hret' : s.state.retired = false := by
      by_contra hne
      rw [hq.retired (by simpa using hne)] at hret
      cases hret
    rw [polledSince_concat, hrec, hstamp, hq.generation]
    exact h.stamps (hq.active hactive) hret' i o' hat'
  · rw [hkeys]
    exact h.keys
  · rw [hkeys, hq.next]
    exact h.keys_lt
  · rintro ⟨p, hp, hc⟩
    obtain hp | hp := List.mem_append.1 hp
    · exact hq.retired (h.closed ⟨p, hp, hc⟩)
    · obtain rfl := List.mem_singleton.1 hp
      exact hcloses hc

/-- A step that reports an error has retired the context. -/
lemma settle_retired {error : String} (h : (settle drops s).2 = .error error) :
    (settle drops s).1.state.retired = true := by
  obtain ⟨hs, -⟩ | ⟨-, -, hs⟩ := settle_cases drops s
  · rw [hs] at h
    cases h
  · rw [hs]
    exact retire_retired

/-! ## The other steps -/

/-- An execution begins with a new generation, or is refused and nothing changes. -/
lemma begin_cases (r : State) :
    ((begin r).1 = r ∧ ∃ error, (begin r).2 = .error error) ∨
      ((begin r).1 = { r with generation := r.generation + 1, active := true } ∧
        (begin r).2 = .ok ()) := by
  unfold begin
  split
  · next error _ => exact .inl ⟨rfl, error, rfl⟩
  · split_ifs
    · exact .inl ⟨rfl, _, rfl⟩
    · split
      · exact .inl ⟨rfl, _, rfl⟩
      · next generation hgen =>
        unfold checkedSucc at hgen
        split_ifs at hgen
        rw [← Option.some.inj hgen]
        exact .inr ⟨rfl, rfl⟩

lemma History.begin (h : History l s) : History (l ++ [(.begin, .done (Lifecycle.begin s.state).2)])
    ⟨(Lifecycle.begin s.state).1, s.tracked⟩ := by
  have hi := h.inv.begin
  obtain ⟨hsame, error, herror⟩ | ⟨hnew, hok⟩ := begin_cases s.state
  · rw [hsame, herror]
    apply h.quiet h.inv (.refl s)
    · rfl
    · rfl
    · intro hc
      cases hc
  · rw [hnew] at hi ⊢
    rw [hok]
    have hpast : polledSince (l ++ [(.begin, .done (.ok ()))]) = [] := by
      rw [polledSince_concat]
      rfl
    constructor
    · exact hi
    · rw [hpast]
      intro i hmem
      cases hmem
    · intro _ _ i o hat
      rw [hpast]
      have hle : o.stamp ≤ s.state.generation := h.inv.stamp_le i o hat
      constructor
      · intro heq
        change o.stamp = s.state.generation + 1 at heq
        omega
      · intro hmem
        cases hmem
    · simpa [keysOf, Output.key] using h.keys
    · simpa [keysOf, Output.key] using h.keys_lt
    · rintro ⟨p, hp, hc⟩
      obtain hp | hp := List.mem_append.1 hp
      · exact h.closed ⟨p, hp, hc⟩
      · obtain rfl := List.mem_singleton.1 hp
        cases hc

/-- What admission does: a refused operation gets no key, an admitted one the next key. -/
lemma track_cases (name : String) (here : Bool) (dropped : Dropped) (r : State) :
    (∃ message owners failure, (track name here dropped r).2 = .error message ∧
        (track name here dropped r).1 = { r with owners := owners, failure := failure }) ∨
      (r.retired = false ∧ track name here dropped r = (r.keyed, .owner ⟨true, name, 0, r.next⟩)) := by
  unfold track
  by_cases hhere : here = false
  · simp only [if_pos hhere]
    exact .inl ⟨_, r.owners, r.failure, rfl, rfl⟩
  · by_cases hret : r.retired = true
    · simp only [if_neg hhere, if_pos hret]
      exact .inl ⟨_, r.owners, r.failure, rfl, rfl⟩
    · simp only [if_neg hhere, if_neg hret]
      cases hnext : checkedSucc r.next with
      | none =>
          exact .inl ⟨_, _, _, rfl, dispose_eq true⟩
      | some next =>
          unfold checkedSucc at hnext
          split_ifs at hnext
          obtain rfl := Option.some.inj hnext
          exact .inr ⟨by simpa using hret, rfl⟩

lemma History.track (h : History l s) (name : String) (here : Bool) (dropped : Dropped) :
    History (l ++ [(.track name here dropped, .tracked (Lifecycle.track name here dropped s.state).2)])
      ⟨(Lifecycle.track name here dropped s.state).1,
        s.tracked ++ [some (Lifecycle.track name here dropped s.state).2]⟩ := by
  have hi := h.inv.track name here dropped
  have hlen : ∀ y : Tracked, s.tracked.length < (s.tracked ++ [some y]).length := by
    intro y
    rw [List.length_append]
    exact Nat.lt_succ_self _
  have hpast : ∀ out, polledSince (l ++ [(.track name here dropped, out)]) = polledSince l := by
    intro out
    rw [polledSince_concat]
    rfl
  have hclosed : ∀ y : Tracked,
      (∃ p ∈ l ++ [(Event.track name here dropped, Output.tracked y)], closes p = true) →
        s.state.retired = true := by
    rintro y ⟨p, hp, hc⟩
    obtain hp | hp := List.mem_append.1 hp
    · exact h.closed ⟨p, hp, hc⟩
    · obtain rfl := List.mem_singleton.1 hp
      cases hc
  obtain ⟨message, owners, failure, hout, hstate⟩ | ⟨hret, hrun⟩ := track_cases name here dropped s.state
  · rw [hout] at hi ⊢
    rw [hstate] at hi ⊢
    constructor
    · exact hi
    · intro i hmem
      rw [hpast] at hmem
      exact (h.polled_lt i hmem).trans (hlen _)
    · intro hactive hret i o hat
      rw [at?_append] at hat
      rw [hpast]
      split_ifs at hat with hj
      · cases hat
      · exact h.stamps hactive hret i o hat
    · simpa [keysOf, Output.key] using h.keys
    · simpa [keysOf, Output.key] using h.keys_lt
    · exact hclosed _
  · rw [hrun] at hi ⊢
    have hkeys : keysOf (l ++ [(.track name here dropped,
        .tracked (.owner ⟨true, name, 0, s.state.next⟩))]) = keysOf l ++ [s.state.next] := by
      simp [keysOf, Output.key]
    constructor
    · exact hi
    · intro i hmem
      rw [hpast] at hmem
      exact (h.polled_lt i hmem).trans (hlen _)
    · intro hactive hret i o hat
      rw [at?_append] at hat
      rw [hpast]
      split_ifs at hat with hj
      · obtain rfl : (⟨true, name, 0, s.state.next⟩ : Owner) = o := by simpa using hat
        have hstart : 1 ≤ s.state.generation := h.inv.started hactive
        constructor
        · intro heq
          change 0 = s.state.generation at heq
          omega
        · intro hmem
          exact absurd (h.polled_lt i hmem) (by omega)
      · exact h.stamps hactive hret i o hat
    · rw [hkeys, List.pairwise_append]
      refine ⟨h.keys, List.pairwise_singleton _ _, ?_⟩
      intro a ha b hb
      rw [List.mem_singleton.1 hb]
      exact h.keys_lt a ha
    · rw [hkeys]
      intro k hk
      change k < s.state.next + 1
      obtain hk | hk := List.mem_append.1 hk
      · exact Nat.lt_succ_of_lt (h.keys_lt k hk)
      · rw [List.mem_singleton.1 hk]
        exact Nat.lt_succ_self _
    · exact hclosed _

/-- What a poll leaves of its owner: the same key, the stamp of the execution unless the context
is retired. -/
lemma poll_owner (o : Owner) (native : Poll) (dropped : Dropped) (r : State) :
    ∃ o' owners failure, (poll (.owner o) native dropped r).2.1 = .owner o' ∧
      (poll (.owner o) native dropped r).1 = { r with owners := owners, failure := failure } ∧
      (r.retired = false → o'.stamp = r.generation) ∧ (o'.future = true → o.future = true) := by
  unfold poll
  by_cases hret : r.retired = true
  · simp only [if_pos hret]
    refine ⟨_, _, _, rfl, dispose_eq _, ?_, fun hf => by cases hf⟩
    intro h
    rw [h] at hret
    cases hret
  · simp only [if_neg hret]
    by_cases hf : o.future = false
    · simp only [if_pos hf]
      exact ⟨_, r.owners, r.failure, rfl, rfl, fun _ => rfl, id⟩
    · simp only [if_neg hf]
      cases native with
      | pending => exact ⟨_, r.owners, r.failure, rfl, rfl, fun _ => rfl, id⟩
      | ready result =>
          exact ⟨_, _, _, rfl, dispose_eq _, fun _ => rfl, fun hf => by cases hf⟩

lemma History.poll {y : Tracked} (h : History l s) (hat : s.at? i = some y) (native : Poll)
    (dropped : Dropped) {out : Output} (hout : out.key = none) :
    History (l ++ [(.poll i native dropped, out)]) ⟨(Lifecycle.poll y native dropped s.state).1,
      s.tracked.set i (some (Lifecycle.poll y native dropped s.state).2.1)⟩ := by
  have hi := h.inv.poll hat native dropped
  have hlt := lt_of_at? hat
  have hpast : polledSince (l ++ [(.poll i native dropped, out)]) = i :: polledSince l := by
    rw [polledSince_concat]
    rfl
  have hkeys : keysOf (l ++ [(.poll i native dropped, out)]) = keysOf l := by
    simp [keysOf, hout]
  have hclosed : (∃ p ∈ l ++ [(Event.poll i native dropped, out)], closes p = true) →
      s.state.retired = true := by
    rintro ⟨p, hp, hc⟩
    obtain hp | hp := List.mem_append.1 hp
    · exact h.closed ⟨p, hp, hc⟩
    · obtain rfl := List.mem_singleton.1 hp
      cases hc
  have hpolled : ∀ j ∈ polledSince (l ++ [(.poll i native dropped, out)]),
      j < (s.tracked.set i (some (Lifecycle.poll y native dropped s.state).2.1)).length := by
    intro j hmem
    rw [hpast] at hmem
    rw [List.length_set]
    obtain rfl | hmem := List.mem_cons.1 hmem
    · exact hlt
    · exact h.polled_lt j hmem
  have hother : ∀ j, j ≠ i → (j ∈ polledSince (l ++ [(.poll i native dropped, out)]) ↔
      j ∈ polledSince l) := by
    intro j hj
    rw [hpast, List.mem_cons]
    exact or_iff_right hj
  cases y with
  | error message =>
      refine ⟨hi, hpolled, ?_, hkeys ▸ h.keys, hkeys ▸ h.keys_lt, hclosed⟩
      intro hactive hret j o hat'
      rw [at?_set hlt] at hat'
      split_ifs at hat' with hj
      · cases hat'
      · rw [hother j (Ne.symm hj)]
        exact h.stamps hactive hret j o hat'
  | owner o =>
      obtain ⟨o', owners, failure, ho', hstate, hstamp, -⟩ := poll_owner o native dropped s.state
      rw [ho', hstate] at hi ⊢
      rw [ho'] at hpolled
      refine ⟨hi, hpolled, ?_, hkeys ▸ h.keys, hkeys ▸ h.keys_lt, hclosed⟩
      intro hactive hret j p hat'
      rw [at?_set hlt] at hat'
      split_ifs at hat' with hj
      · obtain rfl : o' = p := by simpa using hat'
        rw [hpast, ← hj]
        exact iff_of_true (hstamp hret) List.mem_cons_self
      · rw [hother j (Ne.symm hj)]
        exact h.stamps hactive hret j p hat'

/-- Every step extends the history. -/
lemma next_history (h : History l s) (hstep : next s e = some (t, out)) :
    History (l ++ [(e, out)]) t := by
  have hi := next_inv h.inv hstep
  cases e with
  | begin =>
      obtain ⟨rfl, rfl⟩ := Prod.ext_iff.1 (Option.some.inj hstep)
      exact h.begin
  | finish failed drops =>
      obtain ⟨rfl, rfl⟩ := Prod.ext_iff.1 (Option.some.inj hstep)
      apply h.quiet hi (quiet_finish failed drops s) rfl rfl
      intro hc
      cases hr : (finish failed drops s).2 with
      | error error => exact settle_retired hr
      | ok u =>
          rw [hr] at hc
          cases hc
  | clear drops =>
      obtain ⟨rfl, rfl⟩ := Prod.ext_iff.1 (Option.some.inj hstep)
      apply h.quiet hi (quiet_clear drops s) rfl rfl
      intro hc
      cases hr : (clear drops s).2 with
      | error error => exact settle_retired hr
      | ok u =>
          rw [hr] at hc
          cases hc
  | close drops =>
      obtain ⟨rfl, rfl⟩ := Prod.ext_iff.1 (Option.some.inj hstep)
      exact h.quiet hi (quiet_retire drops s) rfl rfl fun _ => retire_retired
  | track name here dropped =>
      obtain ⟨rfl, rfl⟩ := Prod.ext_iff.1 (Option.some.inj hstep)
      exact h.track name here dropped
  | poll i native dropped =>
      obtain ⟨y, hat, hrun⟩ := Option.map_eq_some_iff.1 hstep
      obtain ⟨rfl, rfl⟩ := Prod.ext_iff.1 hrun
      exact h.poll hat native dropped rfl
  | drop i dropped =>
      obtain ⟨y, hat, hrun⟩ := Option.map_eq_some_iff.1 hstep
      obtain ⟨rfl, rfl⟩ := Prod.ext_iff.1 hrun
      exact h.quiet hi (quiet_drop hat dropped) rfl rfl fun hc => by cases hc

/-! ## What a run promises -/

/-- Nothing owns a future. -/
def System.Idle (s : System) : Prop := ∀ i o, s.at? i = some (.owner o) → o.future = false

/-- The clean steps that revoke everything. -/
def Event.revokesAll : Event → Bool
  | .clear _ | .close _ => true
  | _ => false

/-- What holds after the run `l` has led to `s`. -/
structure Promises (l : List (Event × Output)) (s : System) : Prop where
  registry : ∀ k, k ∈ s.state.owners ↔
    ∃ i o, s.at? i = some (.owner o) ∧ o.key = k ∧ o.future = true
  finished : ∀ drops t, next s (.finish true drops) = some (t, .done (.ok ())) →
    ∀ i o, s.at? i = some (.owner o) → ∃ o', t.at? i = some (.owner o') ∧
      (o'.future = true ↔
        o.future = true ∧ ¬ (s.state.active = true ∧ i ∈ polledSince l))
  failed : ∀ failed drops t error,
    next s (.finish failed drops) = some (t, .done (.error error)) → t.Idle
  cleared : ∀ e t out, e.revokesAll = true → next s e = some (t, out) → t.Idle
  spent : ∀ i o, s.at? i = some (.owner o) → o.future = false → ∀ l' t, machine.Run s l' t →
    ∀ native dropped out, (.poll i native dropped, out) ∈ l' →
      out = .polled false (.ready (.error cancelled))
  closed : (∃ p ∈ l, closes p = true) →
    (∃ error, next s .begin = some (s, .done (.error error))) ∧
      ∀ name here dropped, ∃ t message,
        next s (.track name here dropped) = some (t, .tracked (.error message))
  keys : (keysOf l).Pairwise (· < ·)

lemma retire_idle (h : Inv s) (drops : Nat → Dropped) : (retire drops s).Idle :=
  h.toTable.retire.retired retire_retired

lemma clear_idle (h : Inv s) (drops : Nat → Dropped) : (clear drops s).1.Idle := by
  unfold clear
  obtain ⟨hsame, -⟩ | ⟨error, -, hretire⟩ := settle_cases drops (revoke true drops s)
  · rw [hsame]
    exact fun i o hat => h.toTable.revoke_all hat
  · rw [hretire]
    exact retire_idle (h.revoke true) drops

/-- The owners `finish(true)` revokes are those of the execution that still own a future. -/
lemma picks_iff (h : History l s) (hactive : s.state.active = true) (hat : s.at? i = some (.owner o)) :
    picks false { s.state with active := false } o = true ↔
      o.future = true ∧ i ∈ polledSince l := by
  have hcontains := h.inv.contains hat
  unfold picks
  rw [Bool.and_eq_true, hcontains, Bool.false_or, beq_iff_eq]
  refine and_congr_right fun hf => ?_
  have hret : s.state.retired = false := by
    by_contra hne
    have := h.inv.retired (by simpa using hne) i o hat
    rw [hf] at this
    cases this
  exact h.stamps hactive hret i o hat

lemma finish_ok {t : System} (h : finish true drops s = (t, .ok ())) :
    t = if s.state.active = true then
        revoke false drops { s with state := { s.state with active := false } }
      else { s with state := { s.state with active := false } } := by
  unfold finish at h
  simp only [and_true] at h
  obtain ⟨hsettle, -⟩ | ⟨error, herror, -⟩ := settle_cases drops (if s.state.active = true then
      revoke false drops { s with state := { s.state with active := false } }
    else { s with state := { s.state with active := false } })
  · rw [hsettle] at h
    exact (Prod.ext_iff.1 h).1.symm
  · rw [h] at herror
    cases herror

lemma History.finished (h : History l s) {t : System}
    (hrun : next s (.finish true drops) = some (t, .done (.ok ())))
    (hat : s.at? i = some (.owner o)) : ∃ o', t.at? i = some (.owner o') ∧
      (o'.future = true ↔ o.future = true ∧ ¬ (s.state.active = true ∧ i ∈ polledSince l)) := by
  have hfinish : finish true drops s = (t, .ok ()) := by
    obtain ⟨h1, h2⟩ := Prod.ext_iff.1 (Option.some.inj hrun)
    exact Prod.ext_iff.2 ⟨h1, Output.done.inj h2⟩
  rw [finish_ok hfinish]
  by_cases hactive : s.state.active = true
  · rw [if_pos hactive]
    have hrev := revoke_revoked false drops { s with state := { s.state with active := false } }
    have hpick := picks_iff h hactive hat
    refine ⟨if picks false { s.state with active := false } o = true then
      { o with future := false } else o, ?_, ?_⟩
    · rw [hrev.at?]
      change (s.at? i).map _ = _
      rw [hat]
      rfl
    · by_cases hw : picks false { s.state with active := false } o = true
      · rw [if_pos hw]
        obtain ⟨hf, hmem⟩ := hpick.1 hw
        exact iff_of_false (by simp) fun hc => hc.2 ⟨hactive, hmem⟩
      · rw [if_neg hw]
        refine ⟨fun hf => ⟨hf, fun hc => hw (hpick.2 ⟨hf, hc.2⟩)⟩, And.left⟩
  · rw [if_neg hactive]
    refine ⟨o, hat, fun hf => ⟨hf, fun hc => hactive hc.1⟩, And.left⟩

/-- The operation tracked at `i` owns no future, or is gone. -/
structure System.Spent (s : System) (i : Nat) : Prop where
  lt : i < s.tracked.length
  owner : ∀ o, s.at? i = some (.owner o) → o.future = false
  error : ∀ m, s.at? i ≠ some (.error m)

lemma Quiet.spent (h : Quiet s t) (hs : s.Spent i) : t.Spent i := by
  refine ⟨h.length ▸ hs.lt, ?_, fun m hat => hs.error m (h.errors i m hat)⟩
  intro o hat
  obtain ⟨o', hat', -, hf⟩ := h.owners i o hat
  by_contra hne
  have := hs.owner o' hat'
  rw [hf (by simpa using hne)] at this
  cases this

/-- An owner without a future never gets one again. -/
lemma next_spent (hs : s.Spent i) (hstep : next s e = some (t, out)) : t.Spent i := by
  cases e with
  | begin =>
      obtain ⟨rfl, rfl⟩ := Prod.ext_iff.1 (Option.some.inj hstep)
      exact ⟨hs.lt, hs.owner, hs.error⟩
  | finish failed drops =>
      obtain ⟨rfl, rfl⟩ := Prod.ext_iff.1 (Option.some.inj hstep)
      exact (quiet_finish failed drops s).spent hs
  | clear drops =>
      obtain ⟨rfl, rfl⟩ := Prod.ext_iff.1 (Option.some.inj hstep)
      exact (quiet_clear drops s).spent hs
  | close drops =>
      obtain ⟨rfl, rfl⟩ := Prod.ext_iff.1 (Option.some.inj hstep)
      exact (quiet_retire drops s).spent hs
  | track name here dropped =>
      obtain ⟨rfl, rfl⟩ := Prod.ext_iff.1 (Option.some.inj hstep)
      refine ⟨?_, ?_, ?_⟩
      · simp only [List.length_append]
        exact Nat.lt_add_right _ hs.lt
      · intro o hat
        rw [at?_append, if_neg (Nat.ne_of_lt hs.lt)] at hat
        exact hs.owner o hat
      · intro m hat
        rw [at?_append, if_neg (Nat.ne_of_lt hs.lt)] at hat
        exact hs.error m hat
  | poll j native dropped =>
      obtain ⟨y, hat, hrun⟩ := Option.map_eq_some_iff.1 hstep
      obtain ⟨rfl, rfl⟩ := Prod.ext_iff.1 hrun
      refine ⟨?_, ?_, ?_⟩
      · simp only [List.length_set]
        exact hs.lt
      · intro o hat'
        rw [at?_set (lt_of_at? hat)] at hat'
        split_ifs at hat' with hj
        · subst hj
          cases y with
          | error message => cases hat'
          | owner p =>
              obtain ⟨o', -, -, ho', -, -, hf⟩ := poll_owner p native dropped s.state
              rw [ho'] at hat'
              obtain rfl : o' = o := by simpa using hat'
              by_contra hne
              have := hs.owner p hat
              rw [hf (by simpa using hne)] at this
              cases this
        · exact hs.owner o hat'
      · intro m hat'
        rw [at?_set (lt_of_at? hat)] at hat'
        split_ifs at hat' with hj
        · subst hj
          cases y with
          | error message => exact hs.error message hat
          | owner p =>
              obtain ⟨o', -, -, ho', -⟩ := poll_owner p native dropped s.state
              rw [ho'] at hat'
              cases hat'
        · exact hs.error m hat'
  | drop j dropped =>
      obtain ⟨y, hat, hrun⟩ := Option.map_eq_some_iff.1 hstep
      obtain ⟨rfl, rfl⟩ := Prod.ext_iff.1 hrun
      exact (quiet_drop hat dropped).spent hs

/-- A poll of an owner without a future answers the cancelled error, and polls nothing. -/
lemma poll_spent (hf : o.future = false) (native : Poll) (dropped : Dropped) (r : State) :
    (poll (.owner o) native dropped r).2.2 = (false, .ready (.error cancelled)) := by
  unfold poll
  by_cases hret : r.retired = true
  · simp only [if_pos hret]
  · simp only [if_neg hret, if_pos hf]

/-- Every later poll of a spent operation is refused. -/
lemma run_spent (hrun : machine.Run s l t) (hs : s.Spent i) (native : Poll) (dropped : Dropped)
    (hmem : (.poll i native dropped, out) ∈ l) : out = .polled false (.ready (.error cancelled)) := by
  induction hrun with
  | nil s => cases hmem
  | cons step rest ih =>
      obtain heq | hmem := List.mem_cons.1 hmem
      · obtain ⟨rfl, rfl⟩ := Prod.mk.inj heq
        obtain ⟨y, hat, hstep⟩ := Option.map_eq_some_iff.1 step
        cases y with
        | error message => exact absurd hat (hs.error message)
        | owner o =>
            obtain ⟨-, rfl⟩ := Prod.ext_iff.1 hstep
            simp only [poll_spent (hs.owner o hat) native dropped]
      · exact ih (next_spent hs step) hmem

/-- Once closed, a context begins nothing and admits nothing. -/
lemma History.closed_next (h : History l s) (hc : ∃ p ∈ l, closes p = true) :
    (∃ error, next s .begin = some (s, .done (.error error))) ∧
      ∀ name here dropped, ∃ t message,
        next s (.track name here dropped) = some (t, .tracked (.error message)) := by
  have hret := h.closed hc
  constructor
  · obtain ⟨hsame, error, herror⟩ | ⟨-, hok⟩ := begin_cases s.state
    · refine ⟨error, ?_⟩
      unfold next
      simp only [hsame, herror]
    · unfold Lifecycle.begin at hok
      simp only [hret, if_true] at hok
      split at hok <;> cases hok
  · intro name here dropped
    obtain ⟨message, -, -, hout, -⟩ | ⟨hopen, -⟩ := track_cases name here dropped s.state
    · refine ⟨⟨(Lifecycle.track name here dropped s.state).1, s.tracked ++ [some (.error message)]⟩,
        message, ?_⟩
      unfold next
      simp only [hout]
    · rw [hret] at hopen
      cases hopen

/-- **Operations are revoked exactly when they must be**, in every run of a context and the values
tracked in it. -/
theorem operations_revoked (hrun : machine.Run .new l s) : Promises l s := by
  have h : History l s := hrun.history (fun _ _ _ _ _ h hstep => next_history h hstep) [] new_history
  constructor
  · exact h.inv.registry
  · intro drops t hfinish i o hat
    exact h.finished hfinish hat
  · intro failed drops t error hfinish
    obtain ⟨rfl, hout⟩ := Prod.ext_iff.1 (Option.some.inj hfinish)
    exact (next_inv h.inv hfinish).retired (settle_retired (Output.done.inj hout))
  · intro e t out hall hstep
    cases e with
    | clear drops =>
        obtain ⟨rfl, -⟩ := Prod.ext_iff.1 (Option.some.inj hstep)
        exact clear_idle h.inv drops
    | close drops =>
        obtain ⟨rfl, -⟩ := Prod.ext_iff.1 (Option.some.inj hstep)
        exact retire_idle h.inv drops
    | _ => cases hall
  · intro i o hat hf l' t hrun' native dropped out hmem
    have hspent : s.Spent i := ⟨lt_of_at? hat,
      fun o' hat' => by
        rw [hat] at hat'
        obtain rfl : o = o' := by simpa using hat'
        exact hf,
      fun m hat' => by
        rw [hat] at hat'
        cases hat'⟩
    exact run_spent hrun' hspent native dropped hmem
  · exact h.closed_next
  · exact h.keys

/-- An execution that has polled the first of two operations. -/
def begun : System where
  state := ⟨1, true, 3, false, [1, 2], none⟩
  tracked := [some (.owner ⟨true, "bad", 1, 1⟩), some (.owner ⟨true, "good", 0, 2⟩)]

/-- The steps that lead there. -/
def begunSteps : List (Event × Output) :=
  [(.track "bad" true none, .tracked (.owner ⟨true, "bad", 0, 1⟩)),
    (.track "good" true none, .tracked (.owner ⟨true, "good", 0, 2⟩)),
    (.begin, .done (.ok ())), (.poll 0 .pending none, .polled true .pending)]

lemma begun_run : machine.Run .new begunSteps begun :=
  .cons rfl (.cons rfl (.cons rfl (.cons rfl (.nil _))))

/-- The promises for the execution that has polled one of two operations. -/
theorem operations_revoked_begun : Promises begunSteps begun := operations_revoked begun_run

/-- The destructor of the first operation panics. -/
def badDrops (key : Nat) : Dropped := if key = 1 then some "panicked: injected" else none

/-- When revoking a polled operation reports a cleanup failure, an operation that was not polled
loses its future too: the context is retired. -/
theorem failed_cleanup_revokes : ¬ ∀ l s, machine.Run .new l s → ∀ drops t out,
    next s (.finish true drops) = some (t, out) → ∀ i o, s.at? i = some (.owner o) →
      o.future = true → i ∉ polledSince l → ∃ o', t.at? i = some (.owner o') ∧ o'.future = true := by
  intro h
  obtain ⟨o', hat, hf⟩ := h begunSteps begun begun_run badDrops (finish true badDrops begun).1 _ rfl 1
    ⟨true, "good", 0, 2⟩ rfl rfl (by decide)
  have hlost : (finish true badDrops begun).1.at? 1 = some (.owner ⟨false, "good", 0, 2⟩) := by decide
  rw [hlost] at hat
  obtain rfl : ⟨false, "good", 0, 2⟩ = o' := by simpa using hat
  cases hf

end Host.Lifecycle

end Rnx
