import Mathlib.Tactic.Common

/-!
# Computations that may fail and keep their state

A method that takes its receiver by exclusive reference and returns a `Result` leaves behind
whatever it had written when it failed.  `ErrState ε σ α` is that shape: a state transformer
whose outcome is an error or a value, with the final state reported in *both* cases.  It differs
from the usual `StateT σ (Except ε)`, which forgets the state of a failed run.

The rules of pre- and postconditions are stated for `wp m Q E s`: started in `s`, the computation
`m` either returns a value and a state in `Q`, or fails with an error and a state in `E`.
Programs are taken apart by `wp_bind` and by the rules for the primitive steps, and a
specification already proved for a callee enters through `wp_mono`.
-/

/-- A state transformer over `σ` that returns a value or fails with an `ε`, reporting its final
state either way. -/
def ErrState (ε σ α : Type) := σ → Except ε α × σ

namespace ErrState

variable {ε σ α β : Type}

instance : Monad (ErrState ε σ) where
  pure a := fun s => (.ok a, s)
  bind m f := fun s =>
    match m s with
    | (.ok a, s') => f a s'
    | (.error e, s') => (.error e, s')

/-- Fail without touching the state. -/
def fail (e : ε) : ErrState ε σ α := fun s => (.error e, s)

/-- Read the state through a partial observation. -/
def read (f : σ → Except ε α) : ErrState ε σ α := fun s => (f s, s)

/-- The current state. -/
def get : ErrState ε σ σ := fun s => (.ok s, s)

/-- Replace the state. -/
def update (f : σ → σ) : ErrState ε σ Unit := fun s => (.ok (), f s)

/-- Run `m` and hand its outcome over as a value: the way a caller inspects a `Result` and goes
on. -/
def attempt (m : ErrState ε σ α) : ErrState ε σ (Except ε α) := fun s =>
  match m s with
  | (r, s') => (.ok r, s')

/-- Return the outcome of an earlier computation. -/
def ofExcept (r : Except ε α) : ErrState ε σ α := fun s => (r, s)

/-- Fail unless `c` holds. -/
def guardWith (c : Prop) [Decidable c] (e : ε) : ErrState ε σ Unit :=
  if c then pure () else fail e

/-! ## Weakest preconditions -/

/-- Started in `s`, `m` returns into `Q` or fails into `E`. -/
def wp (m : ErrState ε σ α) (Q : α → σ → Prop) (E : ε → σ → Prop) (s : σ) : Prop :=
  match m s with
  | (.ok a, s') => Q a s'
  | (.error e, s') => E e s'

variable {m : ErrState ε σ α} {Q : α → σ → Prop} {E : ε → σ → Prop} {s : σ}

@[simp] lemma wp_pure (a : α) : wp (pure a : ErrState ε σ α) Q E s ↔ Q a s := Iff.rfl

@[simp] lemma wp_fail (e : ε) : wp (fail e : ErrState ε σ α) Q E s ↔ E e s := Iff.rfl

@[simp] lemma wp_update (f : σ → σ) {Q : Unit → σ → Prop} :
    wp (update f : ErrState ε σ Unit) Q E s ↔ Q () (f s) := Iff.rfl

lemma wp_bind {f : α → ErrState ε σ β} {R : β → σ → Prop} :
    wp (m >>= f) R E s ↔ wp m (fun a s' => wp (f a) R E s') E s := by
  unfold wp
  change (match (match m s with
      | (.ok a, s') => f a s'
      | (.error e, s') => (.error e, s')) with
    | (.ok a, s') => R a s'
    | (.error e, s') => E e s') ↔ _
  rcases m s with ⟨e | a, s'⟩ <;> rfl

lemma wp_mono {Q' : α → σ → Prop} {E' : ε → σ → Prop} (h : wp m Q E s)
    (hQ : ∀ a s', Q a s' → Q' a s') (hE : ∀ e s', E e s' → E' e s') : wp m Q' E' s := by
  unfold wp at *
  rcases hm : m s with ⟨e | a, s'⟩ <;> simp only [hm] at h ⊢
  · exact hE _ _ h
  · exact hQ _ _ h

/-- Two specifications of one computation hold of the same run. -/
lemma wp_and {Q' : α → σ → Prop} {E' : ε → σ → Prop} (h : wp m Q E s) (h' : wp m Q' E' s) :
    wp m (fun a t => Q a t ∧ Q' a t) (fun e t => E e t ∧ E' e t) s := by
  unfold wp at *
  rcases hm : m s with ⟨e | a, s'⟩ <;> simp only [hm] at h h' ⊢ <;> exact ⟨h, h'⟩

/-- Sequencing through a specification of the first computation. -/
lemma wp_seq {f : α → ErrState ε σ β} {R : β → σ → Prop} {F : ε → σ → Prop}
    (h : wp m Q F s) (hE : ∀ e s', F e s' → E e s')
    (hQ : ∀ a s', Q a s' → wp (f a) R E s') : wp (m >>= f) R E s :=
  wp_bind.2 (wp_mono h hQ hE)

lemma wp_read {f : σ → Except ε α} (hE : ∀ e, f s = .error e → E e s)
    (hQ : ∀ a, f s = .ok a → Q a s) : wp (read f) Q E s := by
  unfold wp read
  rcases hf : f s with e | a
  · exact hE e hf
  · exact hQ a hf

/-- Sequencing after an observation of the state. -/
lemma wp_read_bind {f : σ → Except ε α} {k : α → ErrState ε σ β} {R : β → σ → Prop}
    (hE : ∀ e, f s = .error e → E e s) (hQ : ∀ a, f s = .ok a → wp (k a) R E s) :
    wp (read f >>= k) R E s :=
  wp_bind.2 (wp_read hE hQ)

/-- Sequencing after an observation whose outcome is known. -/
lemma wp_read_ok {f : σ → Except ε α} {a : α} {k : α → ErrState ε σ β} {R : β → σ → Prop}
    (h : f s = .ok a) (hk : wp (k a) R E s) : wp (read f >>= k) R E s := by
  rw [wp_bind]
  unfold wp read
  rw [h]
  exact hk

lemma wp_ofExcept {r : Except ε α} (hE : ∀ e, r = .error e → E e s)
    (hQ : ∀ a, r = .ok a → Q a s) : wp (ofExcept r) Q E s := by
  unfold wp ofExcept
  rcases r with e | a
  · exact hE e rfl
  · exact hQ a rfl

/-- Sequencing after taking a snapshot. -/
lemma wp_get_bind {k : σ → ErrState ε σ β} {R : β → σ → Prop} :
    wp (get >>= k) R E s ↔ wp (k s) R E s := wp_bind

/-- Sequencing after the outcome of a pure computation. -/
lemma wp_ofExcept_bind {r : Except ε α} {k : α → ErrState ε σ β} {R : β → σ → Prop}
    (hE : ∀ e, r = .error e → E e s) (hQ : ∀ a, r = .ok a → wp (k a) R E s) :
    wp (ofExcept r >>= k) R E s :=
  wp_bind.2 (wp_ofExcept hE hQ)

lemma wp_update_bind {f : σ → σ} {k : Unit → ErrState ε σ β} {R : β → σ → Prop} :
    wp (update f >>= k) R E s ↔ wp (k ()) R E (f s) := wp_bind

lemma wp_ite {c : Prop} [Decidable c] {m' : ErrState ε σ α} (h : c → wp m Q E s)
    (h' : ¬ c → wp m' Q E s) : wp (if c then m else m') Q E s := by
  split_ifs with hc
  · exact h hc
  · exact h' hc

lemma wp_guardWith {c : Prop} [Decidable c] {e : ε} {Q : Unit → σ → Prop}
    (hE : ¬ c → E e s) (hQ : c → Q () s) : wp (guardWith c e) Q E s := by
  unfold guardWith
  split_ifs with h
  · exact hQ h
  · exact hE h

lemma wp_guardWith_bind {c : Prop} [Decidable c] {e : ε} {k : Unit → ErrState ε σ β}
    {R : β → σ → Prop} (hE : ¬ c → E e s) (hQ : c → wp (k ()) R E s) :
    wp (guardWith c e >>= k) R E s :=
  wp_bind.2 (wp_guardWith hE hQ)

/-- Sequencing after a check that passes. -/
lemma wp_guardWith_ok {c : Prop} [Decidable c] {e : ε} {k : Unit → ErrState ε σ β}
    {R : β → σ → Prop} (h : c) (hk : wp (k ()) R E s) : wp (guardWith c e >>= k) R E s :=
  wp_guardWith_bind (fun hn => absurd h hn) fun _ => hk

/-- A caller that inspects the outcome sees both ways of ending as a value. -/
lemma wp_attempt {Q : Except ε α → σ → Prop} :
    wp (attempt m) Q E s ↔ wp m (fun a => Q (.ok a)) (fun e => Q (.error e)) s := by
  unfold wp attempt
  rcases m s with ⟨e | a, s'⟩ <;> rfl

/-- A sequence whose first computation returns goes on in the state it left. -/
lemma run_bind {f : α → ErrState ε σ β} {a : α} {s' : σ} (h : m s = (.ok a, s')) :
    (m >>= f) s = f a s' := by
  change (match m s with
    | (.ok a, s') => f a s'
    | (.error e, s') => (.error e, s')) = _
  rw [h]

/-- A sequence depends on its first computation only through its run. -/
lemma run_bind_congr {m' : ErrState ε σ α} {f : α → ErrState ε σ β} (h : m s = m' s) :
    (m >>= f) s = (m' >>= f) s := by
  change (match m s with
    | (.ok a, s') => f a s'
    | (.error e, s') => (.error e, s')) = _
  rw [h]
  rfl

/-- A sequence whose first computation fails goes no further. -/
lemma run_bind_error {f : α → ErrState ε σ β} {e : ε} {s' : σ} (h : m s = (.error e, s')) :
    (m >>= f) s = (.error e, s') := by
  change (match m s with
    | (.ok a, s') => f a s'
    | (.error e, s') => (.error e, s')) = _
  rw [h]

/-- A sequence that returns has gone through a state in between. -/
lemma exists_of_bind_ok {f : α → ErrState ε σ β} {b : β} {s' : σ}
    (h : (m >>= f) s = (.ok b, s')) : ∃ a t, m s = (.ok a, t) ∧ f a t = (.ok b, s') := by
  rcases hm : m s with ⟨e | a, t⟩
  · rw [run_bind_error hm] at h
    cases h
  · rw [run_bind hm] at h
    exact ⟨a, t, rfl, h⟩

lemma run_ofExcept_bind {f : α → ErrState ε σ β} (a : α) : (ofExcept (.ok a) >>= f) s = f a s := rfl

lemma run_get_bind {f : σ → ErrState ε σ β} : (get >>= f) s = f s s := rfl

lemma run_update_bind {g : σ → σ} {f : Unit → ErrState ε σ β} :
    (update g >>= f) s = f () (g s) := rfl

/-! ## Repeated calls -/

/-- The outcome of the `n`-th of repeated calls, each in the state that the one before it left. -/
def nth (m : ErrState ε σ α) : Nat → σ → Except ε α
  | 0, s => (m s).1
  | n + 1, s => nth m n (m s).2

/-- Calls that match step by step have the same outcomes. -/
lemma nth_eq_of_simulates {τ : Type} {m' : ErrState ε τ α} {R : σ → τ → Prop}
    (hstep : ∀ s t, R s t → (m s).1 = (m' t).1 ∧ R (m s).2 (m' t).2) {t : τ} (h : R s t) (n : Nat) :
    nth m n s = nth m' n t := by
  induction n generalizing s t with
  | zero => exact (hstep s t h).1
  | succ n ih => exact ih (hstep s t h).2

/-- Repeated calls yield the elements of `l` in order, and from then on their outcome is `r`. -/
def Yields (m : ErrState ε σ (Option α)) (s : σ) (l : List α) (r : Except ε (Option α)) : Prop :=
  ∀ n, nth m n s = l[n]?.elim r fun a => .ok (some a)

section

variable {m : ErrState ε σ (Option α)} {s' : σ} {l : List α} {r : Except ε (Option α)}

/-- A call that changes nothing has the same outcome for ever. -/
lemma Yields.still (h : m s = (r, s)) : Yields m s [] r := by
  intro n
  induction n with
  | zero => exact congrArg Prod.fst h
  | succ n ih =>
      unfold nth
      rw [h]
      exact ih

/-- The end, where the first call that finds it may still change the state. -/
lemma Yields.nil (h : m s = (r, s')) (hl : Yields m s' [] r) : Yields m s [] r := by
  intro n
  cases n with
  | zero => exact congrArg Prod.fst h
  | succ n =>
      unfold nth
      rw [h]
      exact hl n

lemma Yields.cons {a : α} (h : m s = (.ok (some a), s')) (hl : Yields m s' l r) :
    Yields m s (a :: l) r := by
  intro n
  cases n with
  | zero => exact congrArg Prod.fst h
  | succ n =>
      unfold nth
      rw [h]
      exact hl n

lemma Yields.head {a : α} (hl : Yields m s (a :: l) r) : (m s).1 = .ok (some a) := hl 0

lemma Yields.tail {a : α} (hl : Yields m s (a :: l) r) : Yields m (m s).2 l r := fun n => hl (n + 1)

lemma Yields.of_simulates {τ : Type} {m' : ErrState ε τ (Option α)} {R : σ → τ → Prop}
    (hstep : ∀ s t, R s t → (m s).1 = (m' t).1 ∧ R (m s).2 (m' t).2) {t : τ} (h : R s t)
    (hl : Yields m' t l r) : Yields m s l r :=
  fun n => (nth_eq_of_simulates hstep h n).trans (hl n)

end

/-- A triple read off a concrete run. -/
lemma wp_run {r : Except ε α} {s' : σ} (hrun : m s = (r, s')) (h : wp m Q E s) :
    (∀ a, r = .ok a → Q a s') ∧ (∀ e, r = .error e → E e s') := by
  unfold wp at h
  rw [hrun] at h
  constructor
  · rintro a rfl
    exact h
  · rintro e rfl
    exact h

end ErrState
