import Mathlib.Data.List.Basic
import Mathlib.Tactic.Common

/-!
# Ledgers of numbered requests

A server numbers its requests as they come in and writes down, in one log, what happens to each.  A
ledger relates the log to the requests that are still owed something: what is written about such a
request is what its due allows, and what is written about any other is a complete course.

A step of the server writes about one request at a time, which it opens, advances or closes.
-/

namespace Ledger

variable {μ δ : Type}

/-- What a log says about one request. -/
def about (r : Nat) (log : List (Nat × μ)) : List μ :=
  log.filterMap fun e => if e.1 = r then some e.2 else none

/-- The requests that are owed something, given the number of the next one. -/
structure Sound (course : δ → List μ → Prop) (ended : List μ → Prop) (next : Nat)
    (log : List (Nat × μ)) (dues : List (Nat × δ)) : Prop where
  nodup : (dues.map (·.1)).Nodup
  due : ∀ r d, (r, d) ∈ dues → r < next ∧ course d (about r log)
  ended : ∀ r, r < next → r ∉ dues.map (·.1) → ended (about r log)
  fresh : ∀ r, next ≤ r → about r log = []

variable {course : δ → List μ → Prop} {ended : List μ → Prop} {next r : Nat}
  {log : List (Nat × μ)} {dues dues' : List (Nat × δ)} {d d' : δ} {ms : List μ}

lemma about_append (r : Nat) (log log' : List (Nat × μ)) :
    about r (log ++ log') = about r log ++ about r log' :=
  List.filterMap_append

lemma about_own (r : Nat) (ms : List μ) : about r (ms.map (r, ·)) = ms := by
  simp [about, List.filterMap_map]

lemma about_other {r' : Nat} (h : r' ≠ r) (ms : List μ) : about r' (ms.map (r, ·)) = [] := by
  simp [about, List.filterMap_map, Ne.symm h]

@[simp] lemma about_write (r : Nat) (log : List (Nat × μ)) (ms : List μ) :
    about r (log ++ ms.map (r, ·)) = about r log ++ ms := by
  rw [about_append, about_own]

lemma about_write_other {r' : Nat} (h : r' ≠ r) (log : List (Nat × μ)) (ms : List μ) :
    about r' (log ++ ms.map (r, ·)) = about r' log := by
  rw [about_append, about_other h, List.append_nil]

lemma mem_about {m : μ} : m ∈ about r log ↔ (r, m) ∈ log := by
  simp only [about, List.mem_filterMap, Option.ite_none_right_eq_some, Option.some.injEq]
  constructor
  · rintro ⟨⟨r', m'⟩, he, rfl, rfl⟩
    exact he
  · intro h
    exact ⟨_, h, rfl, rfl⟩

namespace Sound

lemma start (course : δ → List μ → Prop) (ended : List μ → Prop) : Sound course ended 0 [] [] where
  nodup := List.nodup_nil
  due r d h := by cases h
  ended r h := absurd h (Nat.not_lt_zero r)
  fresh _ _ := rfl

/-- The order of what is owed does not matter. -/
lemma perm (h : Sound course ended next log dues) (hperm : dues.Perm dues') :
    Sound course ended next log dues' where
  nodup := (hperm.map _).nodup_iff.1 h.nodup
  due r d hr := h.due r d (hperm.mem_iff.2 hr)
  ended r hr hn := h.ended r hr fun hmem => hn ((hperm.map _).mem_iff.1 hmem)
  fresh := h.fresh

/-- A request comes in and something is written about it. -/
lemma opens (h : Sound course ended next log dues) (hd : course d ms) :
    Sound course ended (next + 1) (log ++ ms.map (next, ·)) ((next, d) :: dues) where
  nodup := by
    rw [List.map_cons, List.nodup_cons]
    refine ⟨?_, h.nodup⟩
    intro hmem
    obtain ⟨⟨r, d'⟩, hr, heq⟩ := List.mem_map.1 hmem
    obtain rfl : r = next := heq
    exact Nat.lt_irrefl _ (h.due r d' hr).1
  due r d' hr := by
    rw [List.mem_cons] at hr
    obtain heq | hr := hr
    · obtain ⟨rfl, rfl⟩ := Prod.ext_iff.1 heq
      rw [about_write, h.fresh _ (Nat.le_refl _), List.nil_append]
      exact ⟨Nat.lt_succ_self _, hd⟩
    · obtain ⟨hlt, hc⟩ := h.due r d' hr
      rw [about_write_other (Nat.ne_of_lt hlt)]
      exact ⟨Nat.lt_succ_of_lt hlt, hc⟩
  ended r hr hn := by
    rw [List.map_cons, List.mem_cons, not_or] at hn
    rw [about_write_other hn.1]
    exact h.ended r (by omega) hn.2
  fresh r hr := by
    rw [about_write_other (by omega)]
    exact h.fresh r (by omega)

/-- A request comes in that is owed nothing. -/
lemma passes (h : Sound course ended next log dues) (hover : ended ms) :
    Sound course ended (next + 1) (log ++ ms.map (next, ·)) dues where
  nodup := h.nodup
  due r d' hr := by
    obtain ⟨hlt, hc⟩ := h.due r d' hr
    rw [about_write_other (Nat.ne_of_lt hlt)]
    exact ⟨Nat.lt_succ_of_lt hlt, hc⟩
  ended r hr hn := by
    by_cases heq : r = next
    · subst heq
      rwa [about_write, h.fresh _ (Nat.le_refl _), List.nil_append]
    · rw [about_write_other heq]
      exact h.ended r (by omega) hn
  fresh r hr := by
    rw [about_write_other (by omega)]
    exact h.fresh r (by omega)

/-- What is owed to a request changes, and something is written about it. -/
lemma advances (h : Sound course ended next log ((r, d) :: dues))
    (hd : ∀ l, course d l → course d' (l ++ ms)) :
    Sound course ended next (log ++ ms.map (r, ·)) ((r, d') :: dues) where
  nodup := h.nodup
  due r' e hr := by
    have hnodup := h.nodup
    rw [List.map_cons, List.nodup_cons] at hnodup
    rw [List.mem_cons] at hr
    obtain heq | hr := hr
    · obtain ⟨rfl, rfl⟩ := Prod.ext_iff.1 heq
      obtain ⟨hlt, hc⟩ := h.due _ d List.mem_cons_self
      rw [about_write]
      exact ⟨hlt, hd _ hc⟩
    · have hne : r' ≠ r := by
        rintro rfl
        exact hnodup.1 (List.mem_map.2 ⟨_, hr, rfl⟩)
      rw [about_write_other hne]
      exact h.due r' e (List.mem_cons_of_mem _ hr)
  ended r' hr hn := by
    rw [about_write_other fun heq => hn (by simp [heq])]
    exact h.ended r' hr hn
  fresh r' hr := by
    obtain ⟨hlt, -⟩ := h.due r d List.mem_cons_self
    rw [about_write_other (by omega)]
    exact h.fresh r' hr

/-- A request is ended, something having been written about it. -/
lemma closes (h : Sound course ended next log ((r, d) :: dues))
    (hover : ∀ l, course d l → ended (l ++ ms)) :
    Sound course ended next (log ++ ms.map (r, ·)) dues where
  nodup := h.nodup.of_cons
  due r' e hr := by
    have hnodup := h.nodup
    rw [List.map_cons, List.nodup_cons] at hnodup
    have hne : r' ≠ r := by
      rintro rfl
      exact hnodup.1 (List.mem_map.2 ⟨_, hr, rfl⟩)
    rw [about_write_other hne]
    exact h.due r' e (List.mem_cons_of_mem _ hr)
  ended r' hr hn := by
    by_cases heq : r' = r
    · subst heq
      rw [about_write]
      exact hover _ (h.due r' d List.mem_cons_self).2
    · rw [about_write_other heq]
      refine h.ended r' hr ?_
      rw [List.map_cons, List.mem_cons, not_or]
      exact ⟨heq, hn⟩
  fresh r' hr := by
    obtain ⟨hlt, -⟩ := h.due r d List.mem_cons_self
    rw [about_write_other (by omega)]
    exact h.fresh r' hr

/-- The same is written about several requests that are owed the same, and they are ended. -/
lemma closes_each {rs : List Nat} {m : μ} (h : Sound course ended next log (rs.map (·, d) ++ dues))
    (hover : ∀ l, course d l → ended (l ++ [m])) :
    Sound course ended next (log ++ rs.map (·, m)) dues := by
  induction rs generalizing log with
  | nil => simpa using h
  | cons r rs ih =>
      have := ih (closes h hover)
      rwa [List.append_assoc] at this

/-- The same is written about several requests, and what is owed to each changes alike. -/
lemma advances_each (d' : δ) {rs : List Nat} {m : μ}
    (h : Sound course ended next log (rs.map (·, d) ++ dues))
    (hd : ∀ l, course d l → course d' (l ++ [m])) :
    Sound course ended next (log ++ rs.map (·, m)) (rs.map (·, d') ++ dues) := by
  induction rs generalizing log dues with
  | nil => simpa using h
  | cons r rs ih =>
      have hrest := ih ((advances h hd).perm List.perm_middle.symm)
      rw [List.append_assoc] at hrest
      exact hrest.perm List.perm_middle

end Sound

end Ledger
