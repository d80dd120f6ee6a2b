import Mathlib.Order.Defs.Unbundled
import Rnx.Lib.ErrState

/-!
# Relations that computations stay within

A computation stays within a relation when its final state is related to the state it started in,
whether it returned or failed.  For a preorder this composes, so a property of whole programs
follows from one fact about each primitive step that changes the state.
-/

namespace ErrState

variable {ε σ α β : Type} {R Q : σ → σ → Prop}

/-- The final state of `m` is related to the state it started in, however it ended. -/
structure Within (R : σ → σ → Prop) (m : ErrState ε σ α) : Prop where
  run : ∀ s, R s (m s).2

namespace Within

variable {m : ErrState ε σ α} {s t : σ}

lemma mono (h : Within R m) (hle : ∀ s t, R s t → Q s t) : Within Q m :=
  ⟨fun s => hle _ _ (h.run s)⟩

lemma update {f : σ → σ} (h : ∀ s, R s (f s)) : Within R (update f : ErrState ε σ Unit) := ⟨h⟩

lemma attempt (h : Within R m) : Within R (attempt m) := ⟨h.run⟩

/-- One triple for every start. -/
lemma of_wp (h : ∀ s, m.wp (fun _ t => R s t) (fun _ t => R s t) s) : Within R m := by
  constructor
  intro s
  have hs := h s
  unfold wp at hs
  cases hrun : m s with
  | mk r t =>
      rw [hrun] at hs
      cases r with
      | ok a => exact hs
      | error e => exact hs

/-- The triple of one start. -/
lemma wp (h : Within R m) (s : σ) : m.wp (fun _ t => R s t) (fun _ t => R s t) s := by
  have hs := h.run s
  unfold ErrState.wp
  cases hrun : m s with
  | mk r t =>
      rw [hrun] at hs
      cases r with
      | ok a => exact hs
      | error e => exact hs

lemma ite {c : Prop} [Decidable c] {m' : ErrState ε σ α} (h : Within R m) (h' : Within R m') :
    Within R (if c then m else m') := by
  split_ifs
  · exact h
  · exact h'

section Preorder

variable [IsPreorder σ R]

lemma pure (a : α) : Within R (Pure.pure a : ErrState ε σ α) := ⟨fun s => refl_of R s⟩

lemma fail (e : ε) : Within R (fail e : ErrState ε σ α) := ⟨fun s => refl_of R s⟩

lemma read (f : σ → Except ε α) : Within R (read f) := ⟨fun s => refl_of R s⟩

lemma get : Within R (get : ErrState ε σ σ) := ⟨fun s => refl_of R s⟩

lemma ofExcept (r : Except ε α) : Within R (ofExcept r : ErrState ε σ α) := ⟨fun s => refl_of R s⟩

lemma guardWith (c : Prop) [Decidable c] (e : ε) :
    Within R (guardWith c e : ErrState ε σ Unit) := by
  unfold ErrState.guardWith
  split_ifs
  · exact pure ()
  · exact fail e

/-- Sequencing: the state between the two computations is related to both ends. -/
lemma bind {f : α → ErrState ε σ β} (hm : Within R m) (hf : ∀ a, Within R (f a)) :
    Within R (m >>= f) := by
  apply of_wp
  intro s
  apply wp_seq (hm.wp s)
  · intro e t ht
    exact ht
  · intro a t ht
    exact wp_mono ((hf a).wp t) (fun _ _ hu => trans_of R ht hu) fun _ _ hu => trans_of R ht hu

/-- What is read can be used in what follows. -/
lemma bind_read {f : σ → Except ε α} {k : α → ErrState ε σ β}
    (hk : ∀ s a, f s = .ok a → Within R (k a)) : Within R (ErrState.read f >>= k) := by
  apply of_wp
  intro s
  refine wp_read_bind (fun _ _ => refl_of R s) ?_
  intro a ha
  exact (hk s a ha).wp s

/-- What is left to run after the first steps have led from `s` to `t`. -/
lemma after (h : Within R m) (hst : R s t) : m.wp (fun _ u => R s u) (fun _ u => R s u) t :=
  wp_mono (h.wp t) (fun _ _ hu => trans_of R hst hu) fun _ _ hu => trans_of R hst hu

end Preorder

end Within

end ErrState
