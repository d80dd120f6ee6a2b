import Mathlib.Tactic.Common

/-!
# Deciding with a stack

A recursive search asks its questions in order and stops at the first answer that decides; an
answer that does not is `neutral`.  The same search can be run with a stack of the questions left:
handling one gives an answer, or questions to ask in its place.  `Settles` says that a run over
some questions comes to what the recursion says, and the rules below follow the ways to handle a
question.  Pushing may fail, and then the run ends with that error.
-/

namespace Decision

variable {τ ρ ε α β : Type} [DecidableEq ρ]

/-! ## Searching -/

/-- The second answer where the first one does not decide. -/
def andThen (neutral : ρ) (x y : Except ε ρ) : Except ε ρ := do
  let r ← x
  if r = neutral then y else .ok r

variable {neutral shorter longer : ρ}

@[simp] lemma andThen_neutral (y : Except ε ρ) : andThen neutral (.ok neutral) y = y :=
  if_pos rfl

@[simp] lemma andThen_error (e : ε) (y : Except ε ρ) :
    andThen neutral (.error e) y = .error e := rfl

lemma andThen_ok {r : ρ} (hr : r ≠ neutral) (y : Except ε ρ) :
    andThen neutral (.ok r) y = .ok r := if_neg hr

@[simp] lemma andThen_neutral_right (x : Except ε ρ) : andThen neutral x (.ok neutral) = x := by
  cases x with
  | error e => rfl
  | ok r =>
      by_cases hr : r = neutral
      · rw [hr, andThen_neutral]
      · rw [andThen_ok hr]

/-- Two lists by their first difference; a list that ends first is `shorter` or the other one is. -/
def lexicographic (neutral shorter longer : ρ) (f : α → β → Except ε ρ) :
    List α → List β → Except ε ρ
  | [], [] => .ok neutral
  | [], _ :: _ => .ok shorter
  | _ :: _, [] => .ok longer
  | a :: as, b :: bs => andThen neutral (f a b) (lexicographic neutral shorter longer f as bs)

/-- A list by what is found for its elements; an element for which nothing is found is `missing`. -/
def matched (neutral missing : ρ) (find : α → Option β) (f : α → β → Except ε ρ) :
    List α → Except ε ρ
  | [] => .ok neutral
  | a :: as =>
      match find a with
      | some b => andThen neutral (f a b) (matched neutral missing find f as)
      | none => .ok missing

/-! ## The machine -/

/-- What handling a question comes to. -/
inductive Step (τ ρ : Type)
  | answer (r : ρ)
  | ask (questions : List τ)

/-- A search with a stack: how a question is handled, whether the `n`-th push finds storage, and
the error of one that does not. -/
structure Engine (τ ρ ε : Type) where
  neutral : ρ
  handle : τ → Except ε (Step τ ρ)
  room : Nat → Bool
  full : ε

namespace Engine

variable {E : Engine τ ρ ε} {ts us : List τ} {t : τ} {x y : Except ε ρ}

/-- Handle the questions of the stack, top first, until one is decided.  The fuel bounds the
loop; `k` pushes were made before. -/
def run (E : Engine τ ρ ε) : Nat → Nat → List τ → Option (Except ε ρ)
  | 0, _, _ => none
  | _ + 1, _, [] => some (.ok E.neutral)
  | fuel + 1, k, t :: ts =>
      match E.handle t with
      | .error e => some (.error e)
      | .ok (.answer r) => if r = E.neutral then E.run fuel k ts else some (.ok r)
      | .ok (.ask questions) =>
          if (List.range questions.length).all fun i => E.room (k + i) then
            E.run fuel (k + questions.length) (questions ++ ts)
          else some (.error E.full)

/-- What is left of a run once its first questions have come to `x`. -/
def resume (E : Engine τ ρ ε) (x : Except ε ρ) (rest : Option (Except ε ρ)) : Option (Except ε ρ) :=
  match x with
  | .error e => some (.error e)
  | .ok r => if r = E.neutral then rest else some (.ok r)

/-- Some push is refused. -/
def Refuses (E : Engine τ ρ ε) : Prop := ∃ i, E.room i = false

/-- In `n` steps at most, the questions come to `x` or a push is refused. -/
def Settles (E : Engine τ ρ ε) (ts : List τ) (x : Except ε ρ) : Prop :=
  ∃ n, ∀ k,
    (E.Refuses ∧ ∀ fuel rest, E.run (n + fuel) k (ts ++ rest) = some (.error E.full)) ∨
      ∃ j, ∀ fuel rest, E.run (n + fuel) k (ts ++ rest) = E.resume x (E.run fuel j rest)

@[simp] lemma resume_error (e : ε) (rest : Option (Except ε ρ)) :
    E.resume (.error e) rest = some (.error e) := rfl

@[simp] lemma resume_neutral (rest : Option (Except ε ρ)) :
    E.resume (.ok E.neutral) rest = rest := if_pos rfl

lemma resume_ok {r : ρ} (hr : r ≠ E.neutral) (rest : Option (Except ε ρ)) :
    E.resume (.ok r) rest = some (.ok r) := if_neg hr

lemma resume_resume (rest : Option (Except ε ρ)) :
    E.resume x (E.resume y rest) = E.resume (andThen E.neutral x y) rest := by
  cases x with
  | error e => rfl
  | ok r =>
      by_cases hr : r = E.neutral
      · rw [hr, andThen_neutral, resume_neutral]
      · rw [andThen_ok hr, resume_ok hr, resume_ok hr]

/-! ### One step -/

lemma run_error {e : ε} (h : E.handle t = .error e) (fuel k : Nat) :
    E.run (fuel + 1) k (t :: ts) = some (.error e) := by
  unfold run
  rw [h]

lemma run_answer {r : ρ} (h : E.handle t = .ok (.answer r)) (fuel k : Nat) :
    E.run (fuel + 1) k (t :: ts) = E.resume (.ok r) (E.run fuel k ts) := by
  conv_lhs => unfold run
  rw [h]
  rfl

lemma run_ask {questions : List τ} (h : E.handle t = .ok (.ask questions)) (fuel k : Nat) :
    E.run (fuel + 1) k (t :: ts) =
      if (List.range questions.length).all fun i => E.room (k + i) then
        E.run fuel (k + questions.length) (questions ++ ts)
      else some (.error E.full) := by
  conv_lhs => unfold run
  rw [h]

/-! ### The rules -/

lemma Settles.nil : E.Settles [] (.ok E.neutral) := by
  refine ⟨0, fun k => .inr ⟨k, fun fuel rest => ?_⟩⟩
  rw [Nat.zero_add, resume_neutral]
  rfl

/-- Questions one after the other. -/
lemma Settles.append (hx : E.Settles ts x) (hy : E.Settles us y) :
    E.Settles (ts ++ us) (andThen E.neutral x y) := by
  obtain ⟨n, hn⟩ := hx
  obtain ⟨m, hm⟩ := hy
  refine ⟨n + m, fun k => ?_⟩
  obtain ⟨hrefuses, hrun⟩ | ⟨j, hrun⟩ := hn k
  · left
    refine ⟨hrefuses, fun fuel rest => ?_⟩
    rw [List.append_assoc, Nat.add_assoc]
    exact hrun _ _
  · -- The second questions are reached only if the first ones do not decide.
    obtain ⟨hrefuses, hrun'⟩ | ⟨i, hrun'⟩ := hm j
    · by_cases hneutral : x = .ok E.neutral
      · subst hneutral
        left
        refine ⟨hrefuses, fun fuel rest => ?_⟩
        rw [List.append_assoc, Nat.add_assoc, hrun, hrun', resume_neutral]
      · right
        refine ⟨j, fun fuel rest => ?_⟩
        rw [List.append_assoc, Nat.add_assoc, hrun, hrun']
        cases x with
        | error e => rfl
        | ok r =>
            have hr : r ≠ E.neutral := fun h => hneutral (by rw [h])
            rw [andThen_ok hr, resume_ok hr, resume_ok hr]
    · right
      refine ⟨i, fun fuel rest => ?_⟩
      rw [List.append_assoc, Nat.add_assoc, hrun, hrun']
      exact resume_resume _

lemma Settles.error {e : ε} (h : E.handle t = .error e) : E.Settles [t] (.error e) := by
  refine ⟨1, fun k => .inr ⟨k, fun fuel rest => ?_⟩⟩
  rw [Nat.add_comm]
  exact run_error h fuel k

lemma Settles.answer {r : ρ} (h : E.handle t = .ok (.answer r)) : E.Settles [t] (.ok r) := by
  refine ⟨1, fun k => .inr ⟨k, fun fuel rest => ?_⟩⟩
  rw [Nat.add_comm]
  exact run_answer h fuel k

/-- A question that others are asked in place of comes to what they come to. -/
lemma Settles.ask {questions : List τ} (h : E.handle t = .ok (.ask questions))
    (hx : E.Settles questions x) : E.Settles [t] x := by
  obtain ⟨n, hn⟩ := hx
  refine ⟨n + 1, fun k => ?_⟩
  have hstep : ∀ fuel rest, E.run (n + 1 + fuel) k ([t] ++ rest) =
      if (List.range questions.length).all fun i => E.room (k + i) then
        E.run (n + fuel) (k + questions.length) (questions ++ rest)
      else some (.error E.full) := by
    intro fuel rest
    rw [Nat.add_right_comm]
    exact run_ask h (n + fuel) k
  by_cases hroom : (List.range questions.length).all fun i => E.room (k + i)
  · simp only [hroom, if_true] at hstep
    obtain ⟨hrefuses, hrun⟩ | ⟨j, hrun⟩ := hn (k + questions.length)
    · exact .inl ⟨hrefuses, fun fuel rest => (hstep fuel rest).trans (hrun fuel rest)⟩
    · exact .inr ⟨j, fun fuel rest => (hstep fuel rest).trans (hrun fuel rest)⟩
  · left
    refine ⟨?_, fun fuel rest => (hstep fuel rest).trans (if_neg hroom)⟩
    rw [List.all_eq_true] at hroom
    simp only [not_forall] at hroom
    obtain ⟨i, -, hi⟩ := hroom
    exact ⟨k + i, Bool.eq_false_iff.2 hi⟩

/-- A run ends: with what its questions come to, or with a refused push. -/
lemma Settles.run (h : E.Settles ts x) : ∃ n, ∀ fuel, n ≤ fuel →
    E.run fuel 0 ts = some x ∨ (E.Refuses ∧ E.run fuel 0 ts = some (.error E.full)) := by
  obtain ⟨n, hn⟩ := h
  refine ⟨n + 1, fun fuel hfuel => ?_⟩
  obtain ⟨m, rfl⟩ : ∃ m, fuel = n + (m + 1) := ⟨fuel - n - 1, by omega⟩
  obtain ⟨hrefuses, hrun⟩ | ⟨j, hrun⟩ := hn 0
  · right
    have := hrun (m + 1) []
    rw [List.append_nil] at this
    exact ⟨hrefuses, this⟩
  · left
    have := hrun (m + 1) []
    rw [List.append_nil] at this
    rw [this]
    show E.resume x (some (.ok E.neutral)) = some x
    cases x with
    | error e => rfl
    | ok r =>
        by_cases hr : r = E.neutral
        · rw [hr, resume_neutral]
        · exact resume_ok hr _

end Engine

end Decision
