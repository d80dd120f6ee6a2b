import Mathlib.Tactic.Common

/-!
# The champion of a list

Reducing a list by "keep the one that beats the other" finds an element that nothing in the list
beats, whatever the order of the list, as soon as `beats` is a strict order on it.  Where elements
that do not beat each other agree in a key, the key of the champion is the same for every
permutation.
-/

namespace Champion

variable {α κ : Type} {beats : α → α → Bool}

/-- A list reduced by `beats`. -/
def champion (beats : α → α → Bool) : List α → Option α
  | [] => none
  | a :: l => some (l.foldl (fun best e => if beats e best then e else best) a)

/-- `beats` is irreflexive and transitive on a list. -/
structure StrictOn (beats : α → α → Bool) (l : List α) : Prop where
  irrefl : ∀ a ∈ l, beats a a = false
  trans : ∀ a ∈ l, ∀ b ∈ l, ∀ c ∈ l, beats a b = true → beats b c = true → beats a c = true

lemma StrictOn.perm {l l' : List α} (h : StrictOn beats l) (hp : l.Perm l') :
    StrictOn beats l' where
  irrefl a ha := h.irrefl a (hp.mem_iff.2 ha)
  trans a ha b hb c hc :=
    h.trans a (hp.mem_iff.2 ha) b (hp.mem_iff.2 hb) c (hp.mem_iff.2 hc)

/-- An element of the list that nothing in the list beats. -/
structure Undefeated (beats : α → α → Bool) (l : List α) (a : α) : Prop where
  mem : a ∈ l
  best : ∀ b ∈ l, beats b a = false

@[simp] lemma champion_eq_none {l : List α} : champion beats l = none ↔ l = [] := by
  cases l <;> simp [champion]

/-- One more element: the winner is undefeated among all elements seen. -/
lemma Undefeated.snoc {seen : List α} {best e : α} (h : Undefeated beats seen best)
    (hs : StrictOn beats (seen ++ [e])) :
    Undefeated beats (seen ++ [e]) (if beats e best then e else best) := by
  have hbest : best ∈ seen ++ [e] := by simp [h.mem]
  have he : e ∈ seen ++ [e] := by simp
  by_cases hwins : beats e best = true
  · rw [if_pos hwins]
    refine ⟨he, fun b hb => ?_⟩
    rcases List.mem_append.1 hb with hseen | hlast
    · by_contra hbe
      have hbb := hs.trans b hb e he best hbest (by simpa using hbe) hwins
      simp [h.best b hseen] at hbb
    · obtain rfl := List.mem_singleton.1 hlast
      exact hs.irrefl b he
  · rw [if_neg hwins]
    refine ⟨hbest, fun b hb => ?_⟩
    rcases List.mem_append.1 hb with hseen | hlast
    · exact h.best b hseen
    · obtain rfl := List.mem_singleton.1 hlast
      simpa using hwins

lemma undefeated_foldl {rest seen : List α} {best : α} (h : Undefeated beats seen best)
    (hs : StrictOn beats (seen ++ rest)) :
    Undefeated beats (seen ++ rest)
      (rest.foldl (fun best e => if beats e best then e else best) best) := by
  induction rest generalizing seen best with
  | nil => simpa using h
  | cons e rest ih =>
    have hassoc : seen ++ e :: rest = seen ++ [e] ++ rest := by simp
    rw [hassoc] at hs ⊢
    have hfront : StrictOn beats (seen ++ [e]) :=
      ⟨fun a ha => hs.irrefl a (by simp only [List.mem_append] at ha ⊢; exact .inl ha),
        fun a ha b hb c hc => hs.trans a (List.mem_append_left _ ha) b (List.mem_append_left _ hb)
          c (List.mem_append_left _ hc)⟩
    exact ih (h.snoc hfront) hs

/-- The champion is undefeated. -/
theorem champion_spec {l : List α} {a : α} (hs : StrictOn beats l) (h : champion beats l = some a) :
    Undefeated beats l a := by
  cases l with
  | nil => cases h
  | cons b l =>
    obtain rfl := Option.some.inj h
    have hone : Undefeated beats [b] b :=
      ⟨by simp, fun c hc => by
        obtain rfl := List.mem_singleton.1 hc
        exact hs.irrefl c (by simp)⟩
    exact undefeated_foldl hone hs

/-- Undefeated elements agree in a key that separates the elements which beat each other. -/
lemma Undefeated.key_eq {l : List α} {a b : α} (key : α → κ)
    (hkey : ∀ a ∈ l, ∀ b ∈ l, beats a b = false → beats b a = false → key a = key b)
    (ha : Undefeated beats l a) (hb : Undefeated beats l b) : key a = key b :=
  hkey a ha.mem b hb.mem (hb.best a ha.mem) (ha.best b hb.mem)

/-- The key of the champion does not depend on the order of the list. -/
theorem champion_perm {l l' : List α} {key : α → κ} (hs : StrictOn beats l)
    (hkey : ∀ a ∈ l, ∀ b ∈ l, beats a b = false → beats b a = false → key a = key b)
    (hp : l.Perm l') : (champion beats l).map key = (champion beats l').map key := by
  rcases ha : champion beats l with _ | a
  · obtain rfl := champion_eq_none.1 ha
    rw [List.nil_perm.1 hp]
    rfl
  · rcases hb : champion beats l' with _ | b
    · rw [champion_eq_none.1 hb, List.perm_nil] at hp
      rw [hp] at ha
      cases ha
    · have hua := champion_spec hs ha
      have hub := champion_spec (hs.perm hp) hb
      have hub' : Undefeated beats l b :=
        ⟨hp.mem_iff.2 hub.mem, fun c hc => hub.best c (hp.mem_iff.1 hc)⟩
      exact congrArg some (hua.key_eq key hkey hub')

end Champion
