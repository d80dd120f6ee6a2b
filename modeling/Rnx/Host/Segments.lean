import Rnx.Host.Slots
import Rnx.Host.Revocation

/-!
# What the calls of a slot do to its context

A function of the slot makes a few calls on the lifecycle.  `Segment` says that they are a run of
the context, which of them begin or finish a generation, and that a failure one of them answered
with stays the failure of the context.  Each function gets one lemma.
-/

namespace Rnx

namespace Host.Lifecycle

variable {s t : System} {r : State} {e : Event} {out : Output} {o : Owner} {error : String}
  {drops : Nat → Dropped}

/-! ## A failure stays -/

lemma settle_failure (h : s.state.failure = some error) :
    (settle drops s).1.state.failure = some error := by
  rw [settle_failed h]
  exact revokeEach_failure h

lemma poll_failure (y : Tracked) (native : Poll) (dropped : Dropped)
    (h : r.failure = some error) : (poll y native dropped r).1.failure = some error := by
  cases y with
  | error message => exact h
  | owner o =>
      unfold poll
      by_cases hret : r.retired = true
      · simp only [if_pos hret]
        exact dispose_failure _ h
      · simp only [if_neg hret]
        by_cases hf : o.future = false
        · simp only [if_pos hf]
          exact h
        · simp only [if_neg hf]
          cases native with
          | pending => exact h
          | ready result => exact dispose_failure _ h

lemma track_failure (name : String) (here : Bool) (dropped : Dropped)
    (h : r.failure = some error) : (track name here dropped r).1.failure = some error := by
  unfold track
  split_ifs
  · exact h
  · exact h
  · split
    · exact h
    · exact dispose_failure _ h

lemma begin_failure (h : r.failure = some error) : begin r = (r, .error error) := by
  simp only [begin, result, h]

/-- No step of a context forgets its failure. -/
lemma next_failure (h : s.state.failure = some error) (hstep : next s e = some (t, out)) :
    t.state.failure = some error := by
  cases e with
  | begin =>
      obtain rfl := (Prod.ext_iff.1 (Option.some.inj hstep)).1
      change (begin s.state).1.failure = _
      rw [begin_failure h]
      exact h
  | finish failed drops =>
      obtain rfl := (Prod.ext_iff.1 (Option.some.inj hstep)).1
      unfold finish
      apply settle_failure
      split_ifs
      · exact revokeEach_failure h
      · exact h
  | clear drops =>
      obtain rfl := (Prod.ext_iff.1 (Option.some.inj hstep)).1
      exact settle_failure (revokeEach_failure h)
  | close drops =>
      obtain rfl := (Prod.ext_iff.1 (Option.some.inj hstep)).1
      exact revokeEach_failure h
  | track name here dropped =>
      obtain rfl := (Prod.ext_iff.1 (Option.some.inj hstep)).1
      exact track_failure name here dropped h
  | poll i native dropped =>
      obtain ⟨y, -, hrun⟩ := Option.map_eq_some_iff.1 hstep
      obtain rfl := (Prod.ext_iff.1 hrun).1
      exact poll_failure y native dropped h
  | drop i dropped =>
      obtain ⟨y, -, hrun⟩ := Option.map_eq_some_iff.1 hstep
      obtain rfl := (Prod.ext_iff.1 hrun).1
      cases y with
      | error message => exact h
      | owner o => exact dispose_failure _ h

lemma run_failure {l : List (Event × Output)} (hrun : machine.Run s l t)
    (h : s.state.failure = some error) : t.state.failure = some error :=
  Machine.Run.invariant (P := fun s => s.state.failure = some error)
    (fun _ _ _ _ h hstep => next_failure h hstep) hrun h

/-! ## Steps of tracked values -/

/-- The execution and the retired flag are as they were. -/
structure Kept (s t : System) : Prop where
  generation : t.state.generation = s.state.generation
  active : t.state.active = s.state.active
  retired : t.state.retired = s.state.retired

lemma Kept.refl (s : System) : Kept s s := ⟨rfl, rfl, rfl⟩

lemma Kept.trans {u : System} (h : Kept s t) (h' : Kept t u) : Kept s u :=
  ⟨h'.generation.trans h.generation, h'.active.trans h.active, h'.retired.trans h.retired⟩

lemma Kept.of_state {owners : List Nat} {failure : Option String}
    (h : t.state = { s.state with owners := owners, failure := failure }) : Kept s t :=
  ⟨by rw [h], by rw [h], by rw [h]⟩

lemma drop_kept {i : Nat} {dropped : Dropped} (hstep : next s (.drop i dropped) = some (t, out)) :
    Kept s t := by
  obtain ⟨y, -, hrun⟩ := Option.map_eq_some_iff.1 hstep
  obtain rfl := (Prod.ext_iff.1 hrun).1
  cases y with
  | error message => exact ⟨rfl, rfl, rfl⟩
  | owner o => exact Kept.of_state (dispose_eq _)

lemma track_kept {name : String} {here : Bool} {dropped : Dropped}
    (hstep : next s (.track name here dropped) = some (t, out)) : Kept s t := by
  obtain rfl := (Prod.ext_iff.1 (Option.some.inj hstep)).1
  obtain ⟨_, _, _, -, hstate⟩ | ⟨-, hrun⟩ := track_cases name here dropped s.state
  · exact Kept.of_state hstate
  · rw [hrun]
    exact ⟨rfl, rfl, rfl⟩

lemma poll_kept {i : Nat} {native : Poll} {dropped : Dropped}
    (hstep : next s (.poll i native dropped) = some (t, out)) : Kept s t := by
  obtain ⟨y, -, hrun⟩ := Option.map_eq_some_iff.1 hstep
  obtain rfl := (Prod.ext_iff.1 hrun).1
  cases y with
  | error message => exact ⟨rfl, rfl, rfl⟩
  | owner o =>
      obtain ⟨_, _, _, -, hstate, -⟩ := poll_owner o native dropped s.state
      exact Kept.of_state hstate

/-! ## Finishing and revoking -/

/-- What finishing leaves: no execution, and a retired context only with a failure. -/
lemma finish_state (failed : Bool) (drops : Nat → Dropped) (s : System) :
    (finish failed drops s).1.state.active = false ∧
      (finish failed drops s).1.state.generation = s.state.generation ∧
      ((finish failed drops s).1.state.retired = true →
        s.state.retired = true ∨ ∃ error, (finish failed drops s).2 = .error error) := by
  have hidle : ∃ u, finish failed drops s = settle drops u ∧ u.state.active = false ∧
      u.state.generation = s.state.generation ∧ u.state.retired = s.state.retired := by
    refine ⟨_, rfl, ?_⟩
    split_ifs
    · obtain ⟨owners, failure, hstate⟩ := (revoke_revoked false drops
        { s with state := { s.state with active := false } }).state
      rw [hstate]
      exact ⟨rfl, rfl, rfl⟩
    · exact ⟨rfl, rfl, rfl⟩
  obtain ⟨u, hrun, hactive, hgeneration, hretired⟩ := hidle
  rw [hrun]
  obtain ⟨hsame, -⟩ | ⟨error, herror, hretire⟩ := settle_cases drops u
  · rw [hsame]
    exact ⟨hactive, hgeneration, fun h => .inl (hretired ▸ h)⟩
  · rw [hretire, herror]
    have hq := quiet_retire drops u
    refine ⟨?_, hq.generation.trans hgeneration, fun _ => .inr ⟨error, rfl⟩⟩
    by_contra hne
    rw [hq.active (by simpa using hne)] at hactive
    cases hactive

/-- A clear that reports no failure retires nothing. -/
lemma clear_ok (h : (clear drops s).2 = .ok ()) :
    (clear drops s).1.state.failure = none ∧ Kept s (clear drops s).1 := by
  unfold clear at h ⊢
  obtain ⟨hsame, hnone⟩ | ⟨error, herror, -⟩ := settle_cases drops (revoke true drops s)
  · rw [hsame]
    obtain ⟨owners, failure, hstate⟩ := (revoke_revoked true drops s).state
    exact ⟨hnone, Kept.of_state hstate⟩
  · rw [herror] at h
    cases h

lemma revokeEach_none {which : Owner → Bool} {ts : List (Option Tracked)} (r : State)
    (h : ∀ o, some (.owner o) ∈ ts → which o = false) : revokeEach which drops ts r = (r, ts) := by
  induction ts with
  | nil => rfl
  | cons x ts ih =>
      have hrest := ih fun o ho => h o (List.mem_cons_of_mem _ ho)
      cases x with
      | none => simp only [revokeEach, hrest]
      | some y =>
          cases y with
          | error message => simp only [revokeEach, hrest]
          | owner o =>
              have ho := h o List.mem_cons_self
              simp only [revokeEach, hrest, ho, Bool.false_eq_true, if_false]

/-- Closing a context that owns no future only retires it. -/
lemma close_of_idle (hi : Inv s) (hidle : s.Idle) :
    (close drops s).1 = { s with state := { s.state with retired := true } } := by
  have hnone : revokeEach (fun o => s.state.owners.contains o.key && (true ||
      o.stamp == s.state.generation)) drops s.tracked { s.state with retired := true } =
      ({ s.state with retired := true }, s.tracked) := by
    apply revokeEach_none
    intro o ho
    obtain ⟨i, hat⟩ := List.getElem?_of_mem ho
    have hat := at?_eq_some.2 hat
    rw [hi.contains hat, hidle i o hat, Bool.false_and]
  simp only [close, retire, revoke, hnone]

end Host.Lifecycle

namespace Host.Slots

open Lifecycle (System State Dropped maxIdentity Kept)

/-! ## Segments -/

/-- The calls that bound a generation. -/
inductive Mark
  | begun
  | finished
deriving DecidableEq, Repr

/-- The mark a call makes. -/
def mark : Call → Option Mark
  | (.begin, .done (.ok ())) => some .begun
  | (.finish _ _, _) => some .finished
  | _ => none

/-- The marks of some calls, in order. -/
def marks (l : List Call) : List Mark := l.filterMap mark

variable {c c' c'' : System} {l l' : List Call} {m m' : List Mark} {w w' w'' : Traced}
  {drops : Nat → Dropped} {v : SlotInvocation}

lemma marks_append (l l' : List Call) : marks (l ++ l') = marks l ++ marks l' :=
  List.filterMap_append

/-- The calls `l` take the context from `c` to `c'`, with the marks `m`. -/
structure Segment (c : System) (l : List Call) (c' : System) (m : List Mark) : Prop where
  run : Lifecycle.machine.Run c l c'
  marks : marks l = m
  reported : ∀ p ∈ l, ∀ error, p.2 = .done (.error error) → c'.state.failure = some error

lemma Segment.nil (c : System) : Segment c [] c [] :=
  ⟨.nil c, rfl, fun p hp => by cases hp⟩

lemma Segment.append (h : Segment c l c' m) (h' : Segment c' l' c'' m') :
    Segment c (l ++ l') c'' (m ++ m') := by
  refine ⟨h.run.append h'.run, by rw [marks_append, h.marks, h'.marks], ?_⟩
  intro p hp error herror
  obtain hp | hp := List.mem_append.1 hp
  · exact Lifecycle.run_failure h'.run (h.reported p hp error herror)
  · exact h'.reported p hp error herror

lemma Segment.inv (h : Segment c l c' m) (hi : Lifecycle.Inv c) : Lifecycle.Inv c' :=
  h.run.invariant (fun _ _ _ _ hi hstep => Lifecycle.next_inv hi hstep) hi

/-- The calls made between two points. -/
def Traced.Extends (w w' : Traced) (m : List Mark) : Prop :=
  ∃ l, w'.calls = w.calls ++ l ∧ Segment w.context l w'.context m

lemma Traced.Extends.refl (w : Traced) : w.Extends w [] :=
  ⟨[], (List.append_nil _).symm, .nil _⟩

lemma Traced.Extends.trans (h : w.Extends w' m) (h' : w'.Extends w'' m') :
    w.Extends w'' (m ++ m') := by
  obtain ⟨l, hl, hs⟩ := h
  obtain ⟨l', hl', hs'⟩ := h'
  exact ⟨l ++ l', by rw [hl', hl, List.append_assoc], hs.append hs'⟩

lemma Traced.Extends.inv (h : w.Extends w' m) (hi : Lifecycle.Inv w.context) :
    Lifecycle.Inv w'.context := by
  obtain ⟨l, -, hs⟩ := h
  exact hs.inv hi

lemma Traced.Extends.failure {error : String} (h : w.Extends w' m)
    (hf : w.context.state.failure = some error) : w'.context.state.failure = some error := by
  obtain ⟨l, -, hs⟩ := h
  exact Lifecycle.run_failure hs.run hf

lemma Traced.Extends.segment (h : Traced.Extends ⟨c, []⟩ w m) : Segment c w.calls w.context m := by
  obtain ⟨l, hl, hs⟩ := h
  rw [List.nil_append] at hl
  rw [hl]
  exact hs

/-- A call that answers a result, with the failure it reports recorded. -/
lemma extends_done {e : Lifecycle.Event} {answer : Except String Unit}
    (hstep : Lifecycle.next w.context e = some (c, .done answer))
    (herror : ∀ error, answer = .error error → c.state.failure = some error) :
    w.Extends ⟨c, w.calls ++ [(e, .done answer)]⟩ (mark (e, .done answer)).toList := by
  refine ⟨_, rfl, .cons hstep (.nil _), ?_, ?_⟩
  · cases hm : mark (e, .done answer) <;> simp [marks, hm]
  · intro p hp error hout
    obtain rfl := List.mem_singleton.1 hp
    exact herror error (Lifecycle.Output.done.inj hout)

/-- The failure a context reports is its failure. -/
lemma result_error {s : State} {error : String} (h : Lifecycle.result s = .error error) :
    s.failure = some error := by
  unfold Lifecycle.result at h
  cases hf : s.failure with
  | none =>
      rw [hf] at h
      cases h
  | some error' =>
      rw [hf] at h
      rw [Except.error.inj h]

lemma result_ok {s : State} (h : Lifecycle.result s = .ok ()) : s.failure = none := by
  unfold Lifecycle.result at h
  cases hf : s.failure with
  | none => rfl
  | some error =>
      rw [hf] at h
      cases h

/-! ## The functions of a slot -/

lemma dropAt_spec (drops : Nat → Dropped) (w : Traced) (i : Nat) :
    w.Extends (dropAt drops w i) [] ∧ Kept w.context (dropAt drops w i).context := by
  have hcall : ∀ dropped, w.Extends (w.call (.drop i dropped)).1 [] ∧
      Kept w.context (w.call (.drop i dropped)).1.context := by
    intro dropped
    unfold Traced.call
    cases hstep : Lifecycle.next w.context (.drop i dropped) with
    | none => exact ⟨.refl w, .refl _⟩
    | some q =>
        obtain ⟨y, -, hrun⟩ := Option.map_eq_some_iff.1 hstep
        subst hrun
        refine ⟨⟨_, rfl, .cons hstep (.nil _), rfl, ?_⟩, Lifecycle.drop_kept hstep⟩
        intro p hp error hout
        obtain rfl := List.mem_singleton.1 hp
        cases hout
  unfold dropAt
  split
  · exact hcall _
  · exact hcall _

lemma dropArguments_spec (drops : Nat → Dropped) (arguments : Option (List Value)) (w : Traced) :
    w.Extends (dropArguments drops arguments w) [] ∧
      Kept w.context (dropArguments drops arguments w).context := by
  unfold dropArguments
  induction (arguments.getD []).flatten generalizing w with
  | nil => exact ⟨.refl w, .refl _⟩
  | cons i l ih =>
      obtain ⟨hext, hkept⟩ := dropAt_spec drops w i
      obtain ⟨hext', hkept'⟩ := ih (dropAt drops w i)
      exact ⟨hext.trans hext', hkept.trans hkept'⟩

/-- Closing the owner retires the context and reports its failure. -/
lemma ownerClose_spec (drops : Nat → Dropped) (w : Traced) :
    w.Extends (ownerClose drops w).1 [] ∧
      (ownerClose drops w).1.context.state.retired = true ∧
      (∀ failure, (ownerClose drops w).2 = .error failure →
        failure.category = "cleanup" ∧
          (ownerClose drops w).1.context.state.failure = some failure.message) ∧
      ((ownerClose drops w).2 = .ok () → (ownerClose drops w).1.context.state.failure = none) := by
  have hresult : (Lifecycle.close drops w.context).2 =
      Lifecycle.result (Lifecycle.close drops w.context).1.state := rfl
  refine ⟨?_, Lifecycle.retire_retired, ?_, ?_⟩
  · exact extends_done rfl fun error h => result_error h
  · intro failure h
    change (Lifecycle.close drops w.context).2.mapError _ = _ at h
    cases hc : (Lifecycle.close drops w.context).2 with
    | ok u =>
        rw [hc] at h
        cases h
    | error error =>
        rw [hc] at h
        obtain rfl : Failure.mk "cleanup" error = failure := Except.error.inj h
        exact ⟨rfl, result_error (hresult ▸ hc)⟩
  · intro h
    change (Lifecycle.close drops w.context).2.mapError _ = _ at h
    cases hc : (Lifecycle.close drops w.context).2 with
    | ok u => exact result_ok (hresult ▸ hc)
    | error error =>
        rw [hc] at h
        cases h

lemma dropSlot_spec (drops : Nat → Dropped) (w : Traced) :
    w.Extends (dropSlot drops w) [] ∧ (dropSlot drops w).context.state.retired = true :=
  ⟨(ownerClose_spec drops w).1, (ownerClose_spec drops w).2.1⟩

/-- The failure with which a slot is retired: a cleanup failure, and the failure of the context
when it has one. -/
structure Retires (failure : Failure) (c : System) : Prop where
  retired : c.state.retired = true
  category : failure.category = "cleanup"
  message : ∀ error, c.state.failure = some error → failure.message = error

/-- Dropping the slot after its owner has reported a failure. -/
lemma dropSlot_retires {failure : Failure} (h : failure.category = "cleanup")
    (hf : w.context.state.failure = some failure.message) :
    Retires failure (dropSlot drops w).context := by
  refine ⟨(dropSlot_spec drops w).2, h, ?_⟩
  intro error herror
  rw [(dropSlot_spec drops w).1.failure hf] at herror
  exact Option.some.inj herror

/-- Dropping a slot that was closed without a failure records none. -/
lemma dropSlot_clean (hi : Lifecycle.Inv w.context) (hret : w.context.state.retired = true)
    (hf : w.context.state.failure = none) : (dropSlot drops w).context.state.failure = none := by
  change (Lifecycle.close drops w.context).1.state.failure = none
  rw [Lifecycle.close_of_idle hi (hi.retired hret)]
  exact hf

lemma reusable_iff {s : State} : reusable s = true ↔
    s.active = false ∧ s.retired = false ∧ s.generation < maxIdentity ∧ s.failure = none := by
  simp [reusable, and_assoc]

/-- A slot is handed back reusable, and as it was, or it is retired. -/
lemma retireUnlessHealthy_spec (drops : Nat → Dropped) (hi : Lifecycle.Inv w.context) :
    (reusable w.context.state = true ∧ retireUnlessHealthy drops w = (w, .ok ())) ∨
      ¬ reusable w.context.state = true ∧
        ∃ failure, (retireUnlessHealthy drops w).2 = .error failure ∧
          w.Extends (retireUnlessHealthy drops w).1 [] ∧
          Retires failure (retireUnlessHealthy drops w).1.context := by
  unfold retireUnlessHealthy
  by_cases hre : reusable w.context.state = true
  · exact .inl ⟨hre, by rw [if_pos hre]⟩
  · refine .inr ⟨hre, _, by rw [if_neg hre], ?_⟩
    rw [if_neg hre]
    obtain ⟨hext, hret, herror, hok⟩ := ownerClose_spec drops w
    refine ⟨hext.trans (dropSlot_spec drops _).1, ?_⟩
    cases hr : (ownerClose drops w).2 with
    | error failure =>
        obtain ⟨hcat, hf⟩ := herror failure hr
        exact dropSlot_retires hcat hf
    | ok u =>
        refine ⟨(dropSlot_spec drops _).2, rfl, ?_⟩
        intro error h
        have hnone : (dropSlot drops (ownerClose drops w).1).context.state.failure = none :=
          dropSlot_clean (hext.inv hi) hret (hok hr)
        rw [hnone] at h
        cases h

/-- The cleanup failure an invocation remembers is the failure of its context. -/
def SlotInvocation.Noted (v : SlotInvocation) (s : State) : Prop :=
  ∀ failure, v.cleanup = some failure →
    failure.category = "cleanup" ∧ s.failure = some failure.message

lemma SlotInvocation.Noted.segment (h : v.Noted c.state) (hs : Segment c l c' m) :
    v.Noted c'.state :=
  fun failure hf => ⟨(h failure hf).1, Lifecycle.run_failure hs.run (h failure hf).2⟩

/-- What `close` answers where it hands the slot back. -/
def handing (failure : Option Failure) : Except (Failure × Bool) Unit :=
  match failure with
  | some failure => .error (failure, true)
  | none => .ok ()

/-- `close` hands back a reusable slot that owns no future, or retires it; one that was reusable it
retires only for a failure. -/
lemma closeInvocation_spec (drops : Nat → Dropped) (hi : Lifecycle.Inv w.context)
    (hnoted : v.Noted w.context.state) :
    w.Extends (closeInvocation drops v w).1 [] ∧
      (((closeInvocation drops v w).2 = handing v.failure ∧
          reusable (closeInvocation drops v w).1.context.state = true ∧
          (closeInvocation drops v w).1.context.Idle) ∨
        ∃ failure, (closeInvocation drops v w).2 = .error (failure, false) ∧
          Retires failure (closeInvocation drops v w).1.context ∧
          ((closeInvocation drops v w).1.context.state.failure = none →
            ¬ reusable w.context.state = true)) := by
  obtain ⟨hext, hkept⟩ := dropArguments_spec drops v.arguments w
  unfold closeInvocation
  set u := dropArguments drops v.arguments w
  have hresult : (Lifecycle.clear drops u.context).2 =
      Lifecycle.result (Lifecycle.clear drops u.context).1.state := rfl
  have hclear : u.Extends (u.call (.clear drops)).1 [] :=
    extends_done rfl fun error h => result_error h
  have hcleared : (u.call (.clear drops)).2 = (Lifecycle.clear drops u.context).2 := rfl
  -- A cleanup failure of the run comes before that of the clear, and the two are the same.
  have hgone : ∀ failure, failure.category = "cleanup" →
      (u.call (.clear drops)).1.context.state.failure = some failure.message →
      w.Extends (dropSlot drops (ownerClose drops (u.call (.clear drops)).1).1) [] ∧
        Retires failure (dropSlot drops
          (ownerClose drops (u.call (.clear drops)).1).1).context ∧
        ((dropSlot drops (ownerClose drops (u.call (.clear drops)).1).1).context.state.failure = none →
          ¬ reusable w.context.state = true) := by
    intro failure hcat hf
    obtain ⟨hext', -⟩ := ownerClose_spec drops (u.call (.clear drops)).1
    obtain ⟨hext'', -⟩ := dropSlot_spec drops (ownerClose drops (u.call (.clear drops)).1).1
    refine ⟨((hext.trans hclear).trans hext').trans hext'',
      dropSlot_retires hcat (hext'.failure hf), ?_⟩
    intro hnone
    rw [(hext'.trans hext'').failure hf] at hnone
    cases hnone
  cases hv : v.cleanup with
  | some failure =>
      obtain ⟨hcat, hf⟩ := hnoted failure hv
      obtain ⟨h, h'⟩ := hgone failure hcat (hclear.failure (hext.failure hf))
      exact ⟨h, .inr ⟨failure, rfl, h'⟩⟩
  | none =>
      cases hr : (u.call (.clear drops)).2 with
      | error error =>
          obtain ⟨h, h'⟩ := hgone ⟨"cleanup", error⟩ rfl (result_error (hresult ▸ hcleared ▸ hr))
          simp only [hr, Option.or]
          exact ⟨h, .inr ⟨_, rfl, h'⟩⟩
      | ok x =>
          have hi' := (hext.trans hclear).inv hi
          simp only [hr, Option.or]
          obtain ⟨hre, hback⟩ | ⟨hre, failure, herror, hext', hretires⟩ :=
            retireUnlessHealthy_spec drops hi'
          · have hidle : (u.call (.clear drops)).1.context.Idle :=
              Lifecycle.clear_idle (hext.inv hi) drops
            rw [hback]
            cases hf : v.failure with
            | none => exact ⟨hext.trans hclear, .inl ⟨rfl, hre, hidle⟩⟩
            | some failure => exact ⟨hext.trans hclear, .inl ⟨rfl, hre, hidle⟩⟩
          · rw [herror]
            refine ⟨(hext.trans hclear).trans hext', .inr ⟨failure, rfl, hretires, ?_⟩⟩
            intro _ hwas
            obtain ⟨hnone, hkept'⟩ := Lifecycle.clear_ok (hcleared ▸ hr)
            have hkept'' := hkept.trans hkept'
            obtain ⟨hactive, hret, hgen, -⟩ := reusable_iff.1 hwas
            refine hre (reusable_iff.2 ⟨?_, ?_, ?_, hnone⟩)
            · exact hkept''.active.trans hactive
            · exact hkept''.retired.trans hret
            · exact hkept''.generation ▸ hgen

lemma dropInvocation_spec (drops : Nat → Dropped) (v : SlotInvocation) (w : Traced) :
    w.Extends (dropInvocation drops v w) [] ∧
      (dropInvocation drops v w).context.state.retired = true := by
  obtain ⟨hext, -⟩ := dropArguments_spec drops v.arguments w
  obtain ⟨hext', -⟩ := ownerClose_spec drops (dropArguments drops v.arguments w)
  exact ⟨(hext.trans hext').trans (dropSlot_spec drops _).1, (dropSlot_spec drops _).2⟩

/-- `prepare` makes a runnable invocation and touches nothing, or hands back a reusable slot, or
retires it. -/
lemma prepare_cases (handler : String) (arguments : List Value) (budget : Nat)
    (drops : Nat → Dropped) (hi : Lifecycle.Inv w.context) :
    prepare handler arguments budget drops w =
        (w, .ok ⟨some arguments, handler, budget, .ready, none, none⟩) ∨
      w.Extends (prepare handler arguments budget drops w).1 [] ∧
        ((∃ failure, (prepare handler arguments budget drops w).2 = .error (failure, true) ∧
            reusable (prepare handler arguments budget drops w).1.context.state = true) ∨
          ∃ failure, (prepare handler arguments budget drops w).2 = .error (failure, false) ∧
            Retires failure (prepare handler arguments budget drops w).1.context) := by
  unfold prepare
  by_cases hbudget : budget = 0 ∨ budget > largestBudget
  · rw [if_pos hbudget]
    refine .inr ?_
    obtain ⟨hext, -⟩ := dropArguments_spec drops (some arguments) w
    obtain ⟨hre, hback⟩ | ⟨-, failure, herror, hext', hretires⟩ :=
      retireUnlessHealthy_spec drops (hext.inv hi)
    · simp only [hback]
      exact ⟨hext, .inl ⟨_, rfl, hre⟩⟩
    · simp only [herror]
      exact ⟨hext.trans hext', .inr ⟨failure, rfl, hretires⟩⟩
  · rw [if_neg hbudget]
    exact .inl rfl

/-! ## The run -/

/-- What the end of a generation leaves. -/
structure Finished (c c' : System) : Prop where
  active : c'.state.active = false
  generation : c'.state.generation = c.state.generation
  retired : c'.state.retired = true →
    c.state.retired = true ∨ ∃ error, c'.state.failure = some error

lemma finish_call (failed : Bool) (drops : Nat → Dropped) (w : Traced) :
    w.Extends (w.call (.finish failed drops)).1 [.finished] ∧
      Finished w.context (w.call (.finish failed drops)).1.context ∧
      (w.call (.finish failed drops)).2 =
        Lifecycle.result (w.call (.finish failed drops)).1.context.state := by
  obtain ⟨hactive, hgeneration, hretired⟩ := Lifecycle.finish_state failed drops w.context
  refine ⟨?_, ⟨hactive, hgeneration, ?_⟩, rfl⟩
  · exact extends_done rfl fun error h => result_error h
  · intro h
    obtain hret | ⟨error, herror⟩ := hretired h
    · exact .inl hret
    · exact .inr ⟨error, result_error herror⟩

/-- The run returns its result unless the context has failed, which it then reports. -/
lemma finishRun_spec (result : Except Failure Value) (drops : Nat → Dropped) (v : SlotInvocation)
    (hnoted : v.Noted w.context.state) :
    w.Extends (finishRun result drops v w).1 [.finished] ∧
      Finished w.context (finishRun result drops v w).1.context ∧
      (finishRun result drops v w).2.1.stage = .done ∧
      (finishRun result drops v w).2.1.Noted (finishRun result drops v w).1.context.state ∧
      (∀ error, (finishRun result drops v w).1.context.state.failure = some error →
        (finishRun result drops v w).2.2 = .error ⟨"cleanup", error⟩) ∧
      ((finishRun result drops v w).1.context.state.failure = none →
        (finishRun result drops v w).2.2 = result) := by
  obtain ⟨hext, hfinished, hanswer⟩ := finish_call (errOf result).isSome drops w
  unfold finishRun
  cases hr : (w.call (.finish (errOf result).isSome drops)).2 with
  | ok u =>
      have hnone := result_ok (hanswer ▸ hr)
      simp only [hr]
      refine ⟨hext, hfinished, trivial, ?_, ?_, fun _ => trivial⟩
      · intro failure hf
        exact ⟨(hnoted failure hf).1, hext.failure (hnoted failure hf).2⟩
      · intro error herror
        rw [hnone] at herror
        cases herror
  | error error =>
      have hsome := result_error (hanswer ▸ hr)
      simp only [hr]
      refine ⟨hext, hfinished, trivial, ?_, ?_, ?_⟩
      · intro failure hf
        obtain rfl : Failure.mk "cleanup" error = failure := Option.some.inj hf
        exact ⟨rfl, hsome⟩
      · intro error' herror
        rw [hsome] at herror
        rw [Option.some.inj herror]
      · intro hnone
        rw [hsome] at hnone
        cases hnone

/-- A run that is dropped in its handler ends its generation as a failed one. -/
lemma cancelRun_spec (drops : Nat → Dropped) (v : SlotInvocation)
    (hnoted : v.Noted w.context.state) :
    w.Extends (cancelRun drops v w).1 [.finished] ∧
      Finished w.context (cancelRun drops v w).1.context ∧
      (cancelRun drops v w).2.stage = .done ∧
      (cancelRun drops v w).2.Noted (cancelRun drops v w).1.context.state := by
  obtain ⟨hext, hfinished, hanswer⟩ := finish_call true drops w
  unfold cancelRun
  cases hr : (w.call (.finish true drops)).2 with
  | ok u =>
      simp only [hr]
      refine ⟨hext, hfinished, trivial, ?_⟩
      intro failure hf
      exact ⟨(hnoted failure hf).1, hext.failure (hnoted failure hf).2⟩
  | error error =>
      simp only [hr]
      refine ⟨hext, hfinished, trivial, ?_⟩
      intro failure hf
      obtain rfl : Failure.mk "cleanup" error = failure := Option.some.inj hf
      exact ⟨rfl, result_error (hanswer ▸ hr)⟩

/-- A context whose execution may begin: it has not failed, is not retired and has a generation
left. -/
lemma begin_ok {s : State} (hf : s.failure = none) (hret : s.retired = false)
    (hgen : s.generation < maxIdentity) :
    Lifecycle.begin s = ({ s with generation := s.generation + 1, active := true }, .ok ()) := by
  simp only [Lifecycle.begin, Lifecycle.result, hf, hret, Lifecycle.checkedSucc, if_pos hgen,
    Bool.false_eq_true, if_false]

/-- A context that begins nothing although it has a generation left has failed. -/
lemma begin_refused {s : State} (hret : s.retired = true → ∃ error, s.failure = some error)
    (hgen : s.generation < maxIdentity) :
    (Lifecycle.begin s = ({ s with generation := s.generation + 1, active := true }, .ok ())) ∨
      ∃ error, s.failure = some error ∧ Lifecycle.begin s = (s, .error error) := by
  by_cases hf : s.failure = none
  · have hopen : s.retired = false := by
      by_contra hne
      obtain ⟨error, herror⟩ := hret (by simpa using hne)
      rw [hf] at herror
      cases herror
    exact .inl (begin_ok hf hopen hgen)
  · obtain ⟨error, hf⟩ := Option.ne_none_iff_exists'.1 hf
    exact .inr ⟨error, hf, Lifecycle.begin_failure hf⟩

/-- The first poll of a run: an invocation that has run is refused, a context that has failed
begins nothing, and otherwise a generation begins and the handler takes the arguments. -/
lemma runUntilHandler_cases
    (hret : w.context.state.retired = true → ∃ error, w.context.state.failure = some error)
    (hgen : v.stage = .ready → w.context.state.generation < maxIdentity) :
    (v.stage ≠ .ready ∧ runUntilHandler v w =
        (w, v, some ⟨"preparation", "invocation has already run"⟩)) ∨
      (v.stage = .ready ∧ ∃ error, w.context.state.failure = some error ∧
        runUntilHandler v w = (⟨w.context, w.calls ++ [(.begin, .done (.error error))]⟩,
          { v with stage := .done, cleanup := some ⟨"cleanup", error⟩,
                   failure := some ⟨"cleanup", error⟩ }, some ⟨"cleanup", error⟩) ∧
        w.Extends (runUntilHandler v w).1 []) ∨
      (v.stage = .ready ∧ runUntilHandler v w =
        (⟨⟨{ w.context.state with generation := w.context.state.generation + 1, active := true },
          w.context.tracked⟩, w.calls ++ [(.begin, .done (.ok ()))]⟩,
          { v with stage := .begun, arguments := none }, none) ∧
        w.Extends (runUntilHandler v w).1 [.begun]) := by
  by_cases hstage : v.stage = .ready
  · refine .inr ?_
    have hcall : w.call .begin = (⟨⟨(Lifecycle.begin w.context.state).1, w.context.tracked⟩,
        w.calls ++ [(.begin, .done (Lifecycle.begin w.context.state).2)]⟩,
        (Lifecycle.begin w.context.state).2) := rfl
    obtain hok | ⟨error, hf, hrefused⟩ := begin_refused hret (hgen hstage)
    · have hrun : runUntilHandler v w = (⟨⟨{ w.context.state with
          generation := w.context.state.generation + 1, active := true }, w.context.tracked⟩,
          w.calls ++ [(.begin, .done (.ok ()))]⟩, { v with stage := .begun, arguments := none },
          none) := by
        simp only [runUntilHandler, hstage, ne_eq, not_true_eq_false, if_false, hcall, hok]
      have hstep : Lifecycle.next w.context .begin = some (⟨{ w.context.state with
          generation := w.context.state.generation + 1, active := true }, w.context.tracked⟩,
          .done (.ok ())) := by
        simp only [Lifecycle.next, hok]
      refine .inr ⟨hstage, hrun, ?_⟩
      rw [hrun]
      exact extends_done hstep fun error h => by cases h
    · have hrun : runUntilHandler v w = (⟨w.context, w.calls ++ [(.begin, .done (.error error))]⟩,
          { v with stage := .done, cleanup := some ⟨"cleanup", error⟩,
                   failure := some ⟨"cleanup", error⟩ }, some ⟨"cleanup", error⟩) := by
        simp only [runUntilHandler, hstage, ne_eq, not_true_eq_false, if_false, hcall, hrefused]
      have hstep : Lifecycle.next w.context .begin = some (w.context, .done (.error error)) := by
        simp only [Lifecycle.next, hrefused]
      refine .inl ⟨hstage, error, hf, hrun, ?_⟩
      rw [hrun]
      exact extends_done hstep fun error' h => by rw [hf, Except.error.inj h]
  · exact .inl ⟨hstage, by simp only [runUntilHandler, ne_eq, hstage, not_false_eq_true, if_true]⟩

end Host.Slots

end Rnx
