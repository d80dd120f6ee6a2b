import Mathlib.Tactic.Common

/-!
# Machines and their runs

A machine accepts some events in each state; an accepted event takes it to the next state and
yields an output.  A component whose callers, threads or peers take steps in any order is such a
machine, and a claim about every interleaving is a claim about every run.

The one induction over runs is packaged here: a property that holds at the start and is kept by
each accepted event holds in every reachable state.
-/

/-- A machine over the states `σ`, with events `ε` and outputs `ω`. -/
structure Machine (σ ε ω : Type) where
  start : σ → Prop
  next : σ → ε → Option (σ × ω)

namespace Machine

variable {σ ε ω : Type} {M : Machine σ ε ω}

/-- The machine goes from one state to another by the events and outputs of the list. -/
inductive Run (M : Machine σ ε ω) : σ → List (ε × ω) → σ → Prop
  | nil (s : σ) : Run M s [] s
  | cons {s t u : σ} {e : ε} {o : ω} {l : List (ε × ω)} (step : M.next s e = some (t, o))
      (rest : Run M t l u) : Run M s ((e, o) :: l) u

/-- The states a machine gets to. -/
def Reachable (M : Machine σ ε ω) (s : σ) : Prop := ∃ s₀ l, M.start s₀ ∧ M.Run s₀ l s

/-- The state after a list of events, when each of them is accepted. -/
def exec (M : Machine σ ε ω) : σ → List ε → Option σ
  | s, [] => some s
  | s, e :: l => (M.next s e).bind fun p => exec M p.1 l

variable {s t u : σ} {e : ε} {o : ω} {l l' : List (ε × ω)} {P : σ → Prop}

lemma Run.append (h : M.Run s l t) (h' : M.Run t l' u) : M.Run s (l ++ l') u := by
  induction h with
  | nil s => exact h'
  | cons step _ ih => exact .cons step (ih h')

/-- What every accepted event keeps, a run keeps. -/
theorem Run.invariant (hstep : ∀ s e t o, P s → M.next s e = some (t, o) → P t)
    (h : M.Run s l t) (hs : P s) : P t := by
  induction h with
  | nil s => exact hs
  | cons step _ ih => exact ih (hstep _ _ _ _ hs step)

/-- A property of the history and the state that every accepted event extends, a run extends. -/
theorem Run.history {P : List (ε × ω) → σ → Prop}
    (hstep : ∀ l s e t o, P l s → M.next s e = some (t, o) → P (l ++ [(e, o)]) t)
    (h : M.Run s l t) : ∀ past, P past s → P (past ++ l) t := by
  induction h with
  | nil s =>
      intro past hs
      rwa [List.append_nil]
  | cons step _ ih =>
      intro past hs
      have := ih _ (hstep _ _ _ _ _ hs step)
      rwa [List.append_assoc] at this

/-- What holds at the start and is kept by every accepted event holds in every reachable state. -/
theorem Reachable.invariant (hstart : ∀ s, M.start s → P s)
    (hstep : ∀ s e t o, P s → M.next s e = some (t, o) → P t) (h : M.Reachable s) : P s := by
  obtain ⟨s₀, l, h₀, hrun⟩ := h
  exact hrun.invariant hstep (hstart s₀ h₀)

lemma Reachable.of_start (h : M.start s) : M.Reachable s := ⟨s, [], h, .nil s⟩

lemma Reachable.run (h : M.Reachable s) (hrun : M.Run s l t) : M.Reachable t := by
  obtain ⟨s₀, l₀, h₀, hrun₀⟩ := h
  exact ⟨s₀, l₀ ++ l, h₀, hrun₀.append hrun⟩

lemma Reachable.step (h : M.Reachable s) (hstep : M.next s e = some (t, o)) : M.Reachable t :=
  h.run (.cons hstep (.nil t))

/-- A list of accepted events is a run. -/
lemma exec_run {es : List ε} (h : M.exec s es = some t) : ∃ l, M.Run s l t := by
  induction es generalizing s with
  | nil =>
      obtain rfl := Option.some.inj h
      exact ⟨[], .nil s⟩
  | cons e es ih =>
      obtain ⟨⟨u, o⟩, hnext, hrest⟩ := Option.bind_eq_some_iff.1 h
      obtain ⟨l, hl⟩ := ih hrest
      exact ⟨(e, o) :: l, .cons hnext hl⟩

lemma Reachable.exec {es : List ε} (hs : M.start s) (h : M.exec s es = some t) :
    M.Reachable t := by
  obtain ⟨l, hl⟩ := exec_run h
  exact ⟨s, l, hs, hl⟩

end Machine
