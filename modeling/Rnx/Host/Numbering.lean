import Mathlib.Data.List.GetD
import Mathlib.Data.List.TakeWhile
import Rnx.Host.Publication

/-!
# The numbers of inputs

The prompt shows a number, and a diagnostic names the input it is about by the number its prompt
showed.  A renumbering starts again at one; an input keeps the position it had and the numbering it
was admitted in, whatever is admitted or renumbered after it.
-/

namespace Rnx

namespace Host.Evaluation

open Std (TreeMap TreeSet)

variable {s t u : Session} {w : World} {input : String} {number live i j : Nat} {es es' : List Event}

/-! ## What an event does to the numbers -/

/-- The inputs and the boundaries of a session are those of another. -/
structure SameNumbers (s t : Session) : Prop where
  inputs : t.inputs = s.inputs
  numberings : t.numberings = s.numberings

lemma SameNumbers.refl (s : Session) : SameNumbers s s := ⟨rfl, rfl⟩

lemma compileEither_numbers (w : World) (build : Bool → Generated) (s : Session) :
    (compileEither w build).wp (fun _ t => SameNumbers s t) (fun _ t => SameNumbers s t) s := by
  apply ErrState.wp_get_bind.2
  split
  · exact .refl s
  · split
    · exact .refl s
    · simp only
      split
      all_goals exact ErrState.wp_update_bind.2 ⟨rfl, rfl⟩

lemma prepare_numbers (w : World) (input : String) (number : Nat) (s : Session) :
    (prepare w input number).wp (fun _ t => SameNumbers s t) (fun _ t => SameNumbers s t) s := by
  apply ErrState.wp_get_bind.2
  apply ErrState.wp_ofExcept_bind (fun _ _ => .refl s)
  intro block _
  apply ErrState.wp_ofExcept_bind (fun _ _ => .refl s)
  intro parts _
  apply ErrState.wp_ofExcept_bind (fun _ _ => .refl s)
  intro state _
  apply ErrState.wp_seq (compileEither_numbers w _ s) (fun _ _ h => h)
  intro ⟨generated, awaits, unit⟩ t ht
  apply ErrState.wp_update_bind.2
  split
  · exact ⟨ht.inputs, ht.numberings⟩
  · apply ErrState.wp_update_bind.2
    apply ErrState.wp_get_bind.2
    apply ErrState.wp_ofExcept_bind
    · intro e _
      exact ⟨ht.inputs, ht.numberings⟩
    · intro output _
      exact ⟨ht.inputs, ht.numberings⟩

/-- An evaluation keeps the inputs and the boundaries. -/
lemma evalInner_numbers (w : World) (input : String) (number : Nat) (s : Session) :
    SameNumbers s (evalInner w input number s).2 := by
  have hwp : (evalInner w input number).wp (fun _ t => SameNumbers s t)
      (fun _ t => SameNumbers s t) s := by
    apply ErrState.wp_seq (prepare_numbers w input number s) (fun _ _ h => h)
    intro p t ht
    apply ErrState.wp_ofExcept_bind (fun _ _ => ht)
    intro pair _
    apply ErrState.wp_seq (Q := fun _ t => SameNumbers s t) (F := fun _ t => SameNumbers s t)
    · apply ErrState.wp_ofExcept_bind (fun _ _ => ht)
      intro keys _
      exact ⟨ht.inputs, ht.numberings⟩
    · exact fun _ _ h => h
    · intro _ t ht
      exact ⟨ht.inputs, ht.numberings⟩
  unfold ErrState.wp at hwp
  split at hwp
  · next heq => rwa [heq]
  · next heq => rwa [heq]

/-- The event does not begin the session anew. -/
def Event.keeps : Event → Bool
  | .reset => false
  | _ => true

/-- The session after a list of events. -/
def after (s : Session) (es : List Event) : Session := es.foldl Event.apply s

/-- A later session: it has more inputs, and the boundaries it has more come after the inputs there
were. -/
structure Later (s t : Session) : Prop where
  inputs : ∃ more, t.inputs = s.inputs ++ more
  numberings : ∃ more, t.numberings = s.numberings ++ more ∧ ∀ b ∈ more, s.inputs.length ≤ b

lemma Later.length_le (h : Later s t) : s.inputs.length ≤ t.inputs.length := by
  obtain ⟨more, heq⟩ := h.inputs
  rw [heq, List.length_append]
  omega

lemma SameNumbers.later (h : SameNumbers s t) : Later s t where
  inputs := ⟨[], by rw [h.inputs, List.append_nil]⟩
  numberings := ⟨[], by rw [h.numberings, List.append_nil], fun b hb => by cases hb⟩

lemma Later.trans (h : Later s t) (h' : Later t u) : Later s u where
  inputs := by
    obtain ⟨more, heq⟩ := h.inputs
    obtain ⟨more', heq'⟩ := h'.inputs
    exact ⟨more ++ more', by rw [heq', heq, List.append_assoc]⟩
  numberings := by
    obtain ⟨more, heq, hmore⟩ := h.numberings
    obtain ⟨more', heq', hmore'⟩ := h'.numberings
    refine ⟨more ++ more', by rw [heq', heq, List.append_assoc], ?_⟩
    intro b hb
    rw [List.mem_append] at hb
    obtain hb | hb := hb
    · exact hmore b hb
    · exact Nat.le_trans h.length_le (hmore' b hb)

lemma later_admitted (s : Session) (input : String) : Later s (admitted s input) where
  inputs := ⟨[input], rfl⟩
  numberings := ⟨[], (List.append_nil _).symm, fun b hb => by cases hb⟩

lemma evalInput_later (w : World) (live : Nat) (input : String) (s : Session) :
    Later s (evalInput w live input s).2 := by
  by_cases hadmits : admits s input = true
  · rw [evalInput_admitted hadmits]
    exact (later_admitted s input).trans (evalInner_numbers w input _ _).later
  · rw [evalInput_refused hadmits]
    exact (SameNumbers.refl s).later

/-- One event. -/
lemma apply_later {e : Event} (h : e.keeps = true) (s : Session) : Later s (e.apply s) := by
  cases e with
  | eval w live input => exact evalInput_later w live input s
  | reset => cases h
  | renumber =>
      refine ⟨⟨[], (List.append_nil _).symm⟩, ⟨[s.inputs.length], rfl, ?_⟩⟩
      intro b hb
      rw [List.mem_singleton.1 hb]
  | sample live =>
      change Later s (Evaluation.sample live s)
      unfold Evaluation.sample
      split
      · split_ifs
        · exact SameNumbers.later ⟨rfl, rfl⟩
        · exact (SameNumbers.refl s).later
      · exact (SameNumbers.refl s).later
  | setBudget budget => exact SameNumbers.later ⟨rfl, rfl⟩

/-- A list of events. -/
lemma after_later (h : ∀ e ∈ es, e.keeps = true) (s : Session) : Later s (after s es) := by
  induction es generalizing s with
  | nil => exact (SameNumbers.refl s).later
  | cons e es ih =>
      rw [List.forall_mem_cons] at h
      exact (apply_later h.1 s).trans (ih h.2 _)

/-! ## Labels -/

/-- Every boundary counts inputs that were admitted, and the boundaries are in order: a binary search
among them finds the first that is not below an index. -/
structure Bounded (s : Session) : Prop where
  le : ∀ b ∈ s.numberings, b ≤ s.inputs.length
  sorted : s.numberings.Pairwise (· ≤ ·)

lemma Bounded.same (h : Bounded s) (hsame : SameNumbers s t) : Bounded t where
  le := by
    rw [hsame.numberings, hsame.inputs]
    exact h.le
  sorted := hsame.numberings ▸ h.sorted

lemma Bounded.admitted (h : Bounded s) (input : String) : Bounded (admitted s input) where
  le b hb := Nat.le_trans (h.le b hb) (by simp [Evaluation.admitted])
  sorted := h.sorted

lemma apply_bounded {e : Event} (h : Bounded s) : Bounded (e.apply s) := by
  cases e with
  | eval w live input =>
      change Bounded (evalInput w live input s).2
      by_cases hadmits : admits s input = true
      · rw [evalInput_admitted hadmits]
        exact (h.admitted input).same (evalInner_numbers w input _ _)
      · rwa [evalInput_refused hadmits]
  | reset => exact ⟨fun b hb => (by cases hb), .nil⟩
  | renumber =>
      have hle : ∀ b ∈ s.numberings ++ [s.inputs.length], b ≤ s.inputs.length := by
        intro b hb
        obtain hb | hb := List.mem_append.1 hb
        · exact h.le b hb
        · exact Nat.le_of_eq (List.mem_singleton.1 hb)
      refine ⟨hle, List.pairwise_append.2 ⟨h.sorted, List.pairwise_singleton _ _, ?_⟩⟩
      intro b hb c hc
      rw [List.mem_singleton.1 hc]
      exact h.le b hb
  | sample live =>
      change Bounded (Evaluation.sample live s)
      unfold Evaluation.sample
      split
      · split_ifs
        · exact h.same ⟨rfl, rfl⟩
        · exact h
      · exact h
  | setBudget budget => exact h.same ⟨rfl, rfl⟩

lemma after_bounded (h : Bounded s) (es : List Event) : Bounded (after s es) := by
  induction es generalizing s with
  | nil => exact h
  | cons e es ih => exact ih (apply_bounded h)

lemma new_bounded (ceiling budget : Nat) : Bounded (new ceiling budget) :=
  ⟨fun b hb => (by cases hb), .nil⟩

lemma takeWhile_lt {l l' : List Nat} {n : Nat} (h : ∀ b ∈ l, b < n) (h' : ∀ b ∈ l', n ≤ b) :
    (l ++ l').takeWhile (· < n) = l := by
  have hnone : l'.takeWhile (· < n) = [] := by
    cases l' with
    | nil => rfl
    | cons b l' =>
        refine List.takeWhile_cons_of_neg ?_
        have := h' b List.mem_cons_self
        simpa using this
  rw [List.takeWhile_append_of_pos fun b hb => by simpa using h b hb, hnone, List.append_nil]

/-- The next input's number in any later session is the one the prompt shows, in the numbering of the
prompt. -/
lemma inputNumber_later (hs : Bounded s) {more : List Nat}
    (hnumberings : t.numberings = s.numberings ++ more)
    (hmore : ∀ b ∈ more, s.inputs.length + 1 ≤ b) :
    inputNumber t (s.inputs.length + 1) =
      ⟨nextNumber s, if more = [] then none else some (s.numberings.length + 1)⟩ := by
  have htake : t.numberings.takeWhile (· < s.inputs.length + 1) = s.numberings := by
    rw [hnumberings]
    exact takeWhile_lt (fun b hb => Nat.lt_succ_of_le (hs.le b hb)) hmore
  have hbase : (if s.numberings.length = 0 then 0 else t.numberings.getD (s.numberings.length - 1) 0) =
      s.numberings.getLast?.getD 0 := by
    rw [hnumberings]
    split_ifs with hnil
    · rw [List.length_eq_zero_iff.1 hnil]
      rfl
    · rw [List.getD_append _ _ _ _ (by omega), List.getLast?_eq_getElem?, List.getD_eq_getElem?_getD]
  have hle : s.numberings.getLast?.getD 0 ≤ s.inputs.length := by
    cases hlast : s.numberings.getLast? with
    | none => exact Nat.zero_le _
    | some b => exact hs.le b (List.mem_of_getLast? hlast)
  unfold inputNumber nextNumber
  simp only [htake, hbase]
  congr 1
  · omega
  · rw [hnumberings, List.length_append]
    congr 1
    rw [eq_iff_iff, ← List.length_eq_zero_iff]
    omega

/-- The numbering of a label. -/
def InputNumber.numbering (s : Session) (n : InputNumber) : Nat :=
  n.olderNumbering.getD (s.numberings.length + 1)

/-- Two inputs with one numbering have different positions. -/
lemma inputNumber_ne (h : i < j)
    (hnumbering : (inputNumber s i).numbering s = (inputNumber s j).numbering s) :
    (inputNumber s i).position < (inputNumber s j).position := by
  have hnumber : ∀ n, (inputNumber s n).numbering s =
      (s.numberings.takeWhile (· < n)).length + 1 := by
    intro n
    simp only [InputNumber.numbering, inputNumber]
    split_ifs with heq
    · rw [Option.getD_none, heq]
    · rfl
  rw [hnumber, hnumber] at hnumbering
  have hepoch := Nat.succ.inj hnumbering
  have hbase : (if (s.numberings.takeWhile (· < j)).length = 0 then 0
      else s.numberings.getD ((s.numberings.takeWhile (· < j)).length - 1) 0) ≤ i := by
    rw [← hepoch]
    split_ifs with hzero
    · exact Nat.zero_le i
    · have hlt : (s.numberings.takeWhile (· < i)).length - 1 <
          (s.numberings.takeWhile (· < i)).length := by omega
      have hmem := List.mem_takeWhile_imp (List.getElem_mem hlt)
      have hprefix := List.takeWhile_prefix (fun b => decide (b < i)) (l := s.numberings)
      rw [List.getD_eq_getElem _ _ (Nat.lt_of_lt_of_le hlt hprefix.length_le),
        ← hprefix.getElem hlt]
      exact Nat.le_of_lt (by simpa using hmem)
  simp only [inputNumber, hepoch]
  omega

/-- **Input numbers are stable.**  The label of an admitted input is, in every later session, the
number its prompt showed in the numbering of that time; and no two inputs of a session have the same
position and numbering. -/
theorem input_numbers_stable (ceiling budget : Nat) (es es' : List Event)
    (hkeeps : ∀ e ∈ es', e.keeps = true)
    (hadmits : admits (after (new ceiling budget) es) input = true) :
    let s := after (new ceiling budget) es
    let t := after (Event.apply s (.eval w live input)) es'
    t.inputs[s.inputs.length]? = some input ∧
      inputNumber t (s.inputs.length + 1) = ⟨nextNumber s,
        if t.numberings.length = s.numberings.length then none
        else some (s.numberings.length + 1)⟩ ∧
      (inputNumber t (s.inputs.length + 1)).numbering t = s.numberings.length + 1 ∧
      t.numberings.Pairwise (· ≤ ·) ∧
      ∀ i j, 1 ≤ i → i ≤ t.inputs.length → 1 ≤ j → j ≤ t.inputs.length →
        (inputNumber t i).position = (inputNumber t j).position →
        (inputNumber t i).numbering t = (inputNumber t j).numbering t → i = j := by
  intro s t
  have hs : Bounded s := after_bounded (new_bounded ceiling budget) es
  have heval : SameNumbers (admitted s input) (Event.apply s (.eval w live input)) := by
    change SameNumbers _ (evalInput w live input s).2
    rw [evalInput_admitted hadmits]
    exact evalInner_numbers w input _ _
  have hlater : Later (admitted s input) t :=
    heval.later.trans (after_later hkeeps (Event.apply s (.eval w live input)))
  obtain ⟨texts, hinputs⟩ := hlater.inputs
  obtain ⟨more, hnumberings, hmore⟩ := hlater.numberings
  change t.inputs = s.inputs ++ [input] ++ texts at hinputs
  change t.numberings = s.numberings ++ more at hnumberings
  have hlabel := inputNumber_later hs hnumberings fun b hb => by
    simpa [admitted] using hmore b hb
  have hlen : t.numberings.length = s.numberings.length + more.length := by
    rw [hnumberings, List.length_append]
  have hsame : inputNumber t (s.inputs.length + 1) = ⟨nextNumber s,
      if t.numberings.length = s.numberings.length then none
      else some (s.numberings.length + 1)⟩ := by
    rw [hlabel]
    congr 1
    by_cases hnil : more = []
    · rw [if_pos hnil, if_pos (by rw [hlen, hnil, List.length_nil, Nat.add_zero])]
    · have := List.length_pos_iff.2 hnil
      rw [if_neg hnil, if_neg (by omega)]
  refine ⟨?_, hsame, ?_, ?_, ?_⟩
  · rw [hinputs, List.append_assoc, List.getElem?_append_right (Nat.le_refl _), Nat.sub_self]
    rfl
  · rw [hsame]
    simp only [InputNumber.numbering]
    split_ifs with heq
    · rw [Option.getD_none, heq]
    · rfl
  · exact (after_bounded (apply_bounded hs) es').sorted
  · intro i j _ _ _ _ hposition hnumbering
    rcases Nat.lt_trichotomy i j with hlt | heq | hgt
    · have := inputNumber_ne hlt hnumbering
      omega
    · exact heq
    · have := inputNumber_ne hgt hnumbering.symm
      omega

/-- A new session: an input is admitted, two renumberings follow it, and another input. -/
theorem input_numbers_stable_renumbered :
    let t := after (Event.apply (new 1 1) (.eval returnsEarly 0 earlyReturn))
      [.renumber, .renumber, .eval returnsEarly 0 earlyReturn]
    t.inputs[0]? = some earlyReturn ∧ inputNumber t 1 = ⟨1, some 1⟩ := by
  have h := @input_numbers_stable returnsEarly earlyReturn 0 1 1 []
    [.renumber, .renumber, .eval returnsEarly 0 earlyReturn] (by decide) (by decide)
  exact ⟨h.1, h.2.1⟩

end Host.Evaluation

end Rnx
