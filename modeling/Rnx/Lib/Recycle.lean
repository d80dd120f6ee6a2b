import Rnx.Lib.Outcome

/-!
# Recycled storage

A straight-line computation stores the result of each step in a place, and uses a place again
once nothing reads the result that was there.  `Placement.Sound` is what an allocator has to
establish: whatever a step reads is still in its place.  Then every step finds the results it
reads, and a result whose place nobody took again is there at the end (`ends_foldlM_of_sound`).
-/

namespace Recycle

/-- Which steps compute, where their results go, and what they read. -/
structure Placement (Loc : Type) where
  computes : Nat → Bool
  place : Nat → Loc
  reads : Nat → List Nat

namespace Placement

variable {Loc : Type}

/-- No step after `a` and before `i` stores into the place of `a`. -/
def Owns (p : Placement Loc) (a i : Nat) : Prop :=
  ∀ k, a < k → k < i → p.computes k = true → p.place k ≠ p.place a

/-- Each of the first `n` steps reads earlier results that are still in their places, and stores
into none of these. -/
def Sound (p : Placement Loc) (n : Nat) : Prop :=
  ∀ i, i < n → p.computes i = true → ∀ a ∈ p.reads i, p.computes a = true →
    a < i ∧ p.Owns a (i + 1)

lemma Owns.mono {p : Placement Loc} {a i j : Nat} (h : p.Owns a i) (hj : j ≤ i) : p.Owns a j :=
  fun k hak hkj => h k hak (by omega)

/-- A run in the order of the steps.  `holds s l a` says that place `l` holds the result of step
`a`; a step that computes puts its result into its place and leaves the other places alone, and
`J` is whatever else the steps keep. -/
theorem ends_foldlM_of_sound {p : Placement Loc} {σ ε β : Type} {xs : List β}
    {f : σ → β → Except ε σ} {E : ε → Prop} (hp : p.Sound xs.length)
    (holds : σ → Loc → Nat → Prop) (J : Nat → σ → Prop) {s : σ} (h0 : J 0 s)
    (step : ∀ i (h : i < xs.length) s, J i s →
      (p.computes i = true → ∀ a ∈ p.reads i, p.computes a = true → holds s (p.place a) a) →
      (f s xs[i]).Ends (fun s' => J (i + 1) s' ∧ (p.computes i = true → holds s' (p.place i) i) ∧
        ∀ l a, a < i → (p.computes i = true → l ≠ p.place i) → holds s l a → holds s' l a) E) :
    (xs.foldlM f s).Ends (fun s => J xs.length s ∧
      ∀ a, a < xs.length → p.computes a = true → p.Owns a xs.length → holds s (p.place a) a) E := by
  refine Except.ends_foldlM (fun i s => J i s ∧
    ∀ a, a < i → p.computes a = true → p.Owns a i → holds s (p.place a) a)
    ⟨h0, fun a ha => absurd ha (Nat.not_lt_zero a)⟩ fun i h s ⟨hJ, hheld⟩ => ?_
  have hreads : p.computes i = true → ∀ a ∈ p.reads i, p.computes a = true →
      holds s (p.place a) a := by
    intro hc a ha hca
    obtain ⟨hlt, howns⟩ := hp i h hc a ha hca
    exact hheld a hlt hca (howns.mono (Nat.le_succ i))
  refine (step i h s hJ hreads).mono (fun s' ⟨hJ', hown, hframe⟩ => ⟨hJ', ?_⟩) fun _ he => he
  intro a ha hca howns
  rcases Nat.lt_or_eq_of_le (Nat.le_of_lt_succ ha) with hlt | rfl
  · refine hframe _ _ hlt (fun hci heq => ?_) (hheld a hlt hca (howns.mono (Nat.le_succ i)))
    exact howns i hlt (Nat.lt_succ_self i) hci heq.symm
  · exact hown hca

end Placement

end Recycle
