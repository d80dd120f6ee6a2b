import Mathlib.Tactic.Common

/-!
# Outcomes of fallible computations

`m.Ends Q E` says that the computation `m` returns a value in `Q` or fails with an error in `E`.
Programs are taken apart at their binds by `Ends.bind`, a callee's specification enters through
`Ends.mono`, and a loop over a list is proved by an invariant indexed by the position reached.
-/

namespace Except

variable {ε α β : Type}

/-- `m` returns into `Q` or fails into `E`. -/
def Ends (m : Except ε α) (Q : α → Prop) (E : ε → Prop) : Prop :=
  match m with
  | .ok a => Q a
  | .error e => E e

variable {m : Except ε α} {Q : α → Prop} {E : ε → Prop}

@[simp] lemma ends_ok (a : α) : (Except.ok a : Except ε α).Ends Q E ↔ Q a := Iff.rfl

@[simp] lemma ends_pure (a : α) : (pure a : Except ε α).Ends Q E ↔ Q a := Iff.rfl

@[simp] lemma ends_error (e : ε) : (Except.error e : Except ε α).Ends Q E ↔ E e := Iff.rfl

@[simp] lemma ends_throw (e : ε) : (throw e : Except ε α).Ends Q E ↔ E e := Iff.rfl

lemma Ends.mono {Q' : α → Prop} {E' : ε → Prop} (h : m.Ends Q E) (hQ : ∀ a, Q a → Q' a)
    (hE : ∀ e, E e → E' e) : m.Ends Q' E' := by
  rcases m with e | a
  · exact hE e h
  · exact hQ a h

/-- Sequencing: what the first computation returns meets the precondition of the second. -/
lemma Ends.bind {R : β → Prop} {f : α → Except ε β} (h : m.Ends Q E)
    (hf : ∀ a, Q a → (f a).Ends R E) : (m >>= f).Ends R E := by
  rcases m with e | a
  · exact h
  · exact hf a h

/-- Sequencing through a callee that fails in a narrower way. -/
lemma Ends.seq {R : β → Prop} {E' : ε → Prop} {f : α → Except ε β} (h : m.Ends Q E')
    (hE : ∀ e, E' e → E e) (hf : ∀ a, Q a → (f a).Ends R E) : (m >>= f).Ends R E :=
  (h.mono (fun _ hq => hq) hE).bind hf

lemma ends_iff_of_ok {a : α} (h : m = .ok a) : m.Ends Q E ↔ Q a := by rw [h]; rfl

/-- A computation that cannot fail returns. -/
lemma Ends.returns (h : m.Ends Q fun _ => False) : ∃ a, m = .ok a ∧ Q a := by
  rcases m with e | a
  · exact h.elim
  · exact ⟨a, rfl, h⟩

lemma ends_ite {p : Prop} [Decidable p] {m' : Except ε α} (ht : p → m.Ends Q E)
    (hf : ¬p → m'.Ends Q E) : (if p then m else m').Ends Q E := by
  split
  · exact ht ‹_›
  · exact hf ‹_›

/-- A fold over a list keeps an invariant indexed by the number of elements consumed. -/
lemma ends_foldlM {xs : List β} {f : α → β → Except ε α} (I : Nat → α → Prop) {a : α}
    (h0 : I 0 a)
    (step : ∀ i (h : i < xs.length) a, I i a → (f a xs[i]).Ends (I (i + 1)) E) :
    (xs.foldlM f a).Ends (I xs.length) E := by
  induction xs generalizing I a with
  | nil => simpa using h0
  | cons x xs ih =>
    rw [List.foldlM_cons]
    refine Ends.bind (step 0 (by simp) a h0) fun b hb => ?_
    exact ih (fun i => I (i + 1)) hb fun i h b hb =>
      step (i + 1) (by simpa using Nat.succ_lt_succ h) b hb

/-! ## Inversion -/

/-- A sequence succeeds when both of its parts do. -/
lemma bind_eq_ok {m : Except ε α} {f : α → Except ε β} {b : β} :
    m >>= f = .ok b ↔ ∃ a, m = .ok a ∧ f a = .ok b := by
  cases m with
  | error e => exact Iff.intro (fun h => nomatch h) fun ⟨_, h, _⟩ => nomatch h
  | ok a =>
    refine ⟨fun h => ⟨a, rfl, h⟩, fun ⟨_, h, hb⟩ => ?_⟩
    cases h
    exact hb

/-- A guarded computation succeeds when the guard lets it through. -/
lemma ite_error_eq_ok {c : Prop} [Decidable c] {e : ε} {m : Except ε α} {a : α} :
    (if c then .error e else m) = .ok a ↔ ¬c ∧ m = .ok a := by
  by_cases h : c
  · simp [h]
  · simp [h]

/-- A map over a list succeeds when it does at every element. -/
lemma mapM_eq_ok {g : α → Except ε β} {xs : List α} {ys : List β} (h : xs.mapM g = .ok ys) :
    ys.length = xs.length ∧
      ∀ (i : Nat) (x : α), xs[i]? = some x → ∃ y, ys[i]? = some y ∧ g x = .ok y := by
  induction xs generalizing ys with
  | nil =>
    rw [List.mapM_nil] at h
    obtain rfl := Except.ok.inj h
    exact ⟨rfl, fun i x hx => by cases hx⟩
  | cons a xs ih =>
    rw [List.mapM_cons] at h
    obtain ⟨b, hb, h⟩ := bind_eq_ok.1 h
    obtain ⟨bs, hbs, h⟩ := bind_eq_ok.1 h
    obtain rfl := Except.ok.inj h
    obtain ⟨hlength, hat⟩ := ih hbs
    refine ⟨congrArg (· + 1) hlength, fun i x hx => ?_⟩
    cases i with
    | zero =>
      obtain rfl := Option.some.inj hx
      exact ⟨b, rfl, hb⟩
    | succ i => exact hat i x hx

/-- A fold over a list succeeds only when it does at every element. -/
lemma foldlM_eq_ok {f : α → β → Except ε α} {xs : List β} {a b : α} (h : xs.foldlM f a = .ok b) :
    ∀ x ∈ xs, ∃ s s', f s x = .ok s' := by
  induction xs generalizing a with
  | nil => exact fun x hx => absurd hx List.not_mem_nil
  | cons x xs ih =>
    rw [List.foldlM_cons] at h
    obtain ⟨s, hs, h⟩ := bind_eq_ok.1 h
    intro y hy
    obtain rfl | hy := List.mem_cons.1 hy
    · exact ⟨a, s, hs⟩
    · exact ih h y hy

/-- A loop over a list succeeds when it does at every element. -/
lemma forM_eq_ok {f : α → Except ε Unit} {xs : List α} :
    xs.forM f = .ok () ↔ ∀ x ∈ xs, f x = .ok () := by
  induction xs with
  | nil => exact iff_of_true rfl (List.forall_mem_nil _)
  | cons x xs ih =>
    rw [List.forall_mem_cons, ← ih]
    refine bind_eq_ok.trans ⟨?_, fun h => ⟨(), h⟩⟩
    rintro ⟨⟨⟩, h⟩
    exact h

end Except
