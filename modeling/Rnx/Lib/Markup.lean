import Mathlib.Data.List.TakeWhile
import Mathlib.Tactic.Common

/-!
# Markup from a list of tags

A text is markup when it is made of characters, entities and elements, where an element is what
stands between a tag and the end of the tag, and elements nest to a given depth.  `scan` accepts a
text in one pass, with a stack of the tags that are open.

* `scan_iff` — the texts that are accepted are the markup.
-/

namespace Rnx

/-- What markup is made of: the tags, the entities, how deep elements nest and which characters are
refused.  Tags have names that end before their bracket, and no entity begins another one. -/
structure Markup where
  tags : List String
  entities : List String
  depth : Nat
  refused : Char → Bool
  tag_name : ∀ t ∈ tags, '>' ∉ t.toList ∧ t.toList.head? ≠ some '/'
  entity_start : ∀ e ∈ entities, e.toList.head? = some '&'
  entity_unique : ∀ e ∈ entities, ∀ e' ∈ entities, e.toList <+: e'.toList → e = e'

namespace Markup

variable (L : Markup)

/-! ## The grammar -/

/-- A character that stands for itself. -/
def Plain (c : Char) : Prop := c ≠ '<' ∧ c ≠ '>' ∧ c ≠ '&' ∧ L.refused c = false

/-- The beginning of an element. -/
def opening (t : String) : List Char := '<' :: (t.toList ++ ['>'])

/-- The end of an element. -/
def closing (t : String) : List Char := '<' :: '/' :: (t.toList ++ ['>'])

/-- Markup whose elements nest at most so deep. -/
inductive Content : Nat → List Char → Prop
  | nil (n : Nat) : Content n []
  | char {n c cs} : L.Plain c → Content n cs → Content n (c :: cs)
  | entity {n e cs} : e ∈ L.entities → Content n cs → Content n (e.toList ++ cs)
  | element {n t inner cs} : t ∈ L.tags → Content n inner → Content (n + 1) cs →
      Content (n + 1) (opening t ++ (inner ++ (closing t ++ cs)))

/-! ## The scanner -/

/-- The tags that are open after one more tag, `inner` being what is between its brackets. -/
def tag (inner : List Char) (stack : List String) : Option (List String) :=
  if inner.head? = some '/' then
    if String.ofList inner.tail ∈ L.tags ∧ stack.head? = some (String.ofList inner.tail) then
      some stack.tail
    else none
  else if String.ofList inner ∈ L.tags ∧ stack.length ≠ L.depth then
    some (String.ofList inner :: stack)
  else none

lemma entity_length {L : Markup} {e : String} (he : e ∈ L.entities) : 0 < e.toList.length := by
  have hstart := L.entity_start e he
  refine List.length_pos_iff.2 fun hnil => ?_
  rw [hnil] at hstart
  cases hstart

/-- One pass over a text, with the tags that are open. -/
def scan (text : List Char) (stack : List String) : Bool :=
  match text with
  | [] => stack.isEmpty
  | c :: rest =>
      if c = '<' then
        if '>' ∈ rest then
          match L.tag (rest.takeWhile (· ≠ '>')) stack with
          | some stack => scan (rest.dropWhile (· ≠ '>')).tail stack
          | none => false
        else false
      else if c = '>' then false
      else if c = '&' then
        match _h : L.entities.find? (·.toList.isPrefixOf (c :: rest)) with
        | some entity => scan ((c :: rest).drop entity.length) stack
        | none => false
      else if L.refused c = true then false
      else scan rest stack
termination_by text.length
decreasing_by
  · have hdrop := (List.dropWhile_suffix (fun c => decide (c ≠ '>')) (l := rest)).length_le
    rw [List.length_tail, List.length_cons]
    omega
  · have hpos := entity_length (List.mem_of_find?_eq_some _h)
    rw [String.length_toList] at hpos
    rw [List.length_drop, List.length_cons]
    omega
  · exact Nat.lt_succ_self _

variable {L : Markup} {c : Char} {t e : String} {stack : List String} {cs rest : List Char} {n : Nat}

/-! ## One step -/

lemma until_bracket (h : '>' ∉ cs) :
    (cs ++ '>' :: rest).takeWhile (· ≠ '>') = cs ∧
      (cs ++ '>' :: rest).dropWhile (· ≠ '>') = '>' :: rest := by
  have hall : ∀ c ∈ cs, decide (c ≠ '>') = true := fun c hc =>
    decide_eq_true fun heq => h (heq ▸ hc)
  constructor
  · rw [List.takeWhile_append_of_pos hall, List.takeWhile_cons_of_neg (by simp), List.append_nil]
  · rw [List.dropWhile_append_of_pos hall, List.dropWhile_cons_of_neg (by simp)]

lemma tag_opening (ht : t ∈ L.tags) (hdepth : stack.length ≠ L.depth) :
    L.tag t.toList stack = some (t :: stack) := by
  unfold tag
  rw [if_neg (L.tag_name t ht).2, String.ofList_toList, if_pos ⟨ht, hdepth⟩]

lemma tag_closing (ht : t ∈ L.tags) : L.tag ('/' :: t.toList) (t :: stack) = some stack := by
  have hslash : ('/' :: t.toList).head? = some '/' := rfl
  unfold tag
  rw [if_pos hslash, List.tail_cons, String.ofList_toList, if_pos ⟨ht, rfl⟩, List.tail_cons]

/-- What `tag` accepts. -/
lemma tag_some {inner : List Char} {stack' : List String} (h : L.tag inner stack = some stack') :
    (∃ t ∈ L.tags, inner = t.toList ∧ stack.length ≠ L.depth ∧ stack' = t :: stack) ∨
      ∃ t ∈ L.tags, inner = '/' :: t.toList ∧ stack = t :: stack' := by
  unfold tag at h
  split_ifs at h with hslash hclose hopen
  · obtain ⟨rest, rfl⟩ := List.head?_eq_some_iff.1 hslash
    obtain ⟨ht, htop⟩ := hclose
    obtain ⟨tail, rfl⟩ := List.head?_eq_some_iff.1 htop
    obtain rfl := Option.some.inj h
    exact .inr ⟨_, ht, by rw [List.tail_cons, String.toList_ofList], rfl⟩
  · obtain rfl := Option.some.inj h
    exact .inl ⟨_, hopen.1, by rw [String.toList_ofList], hopen.2, rfl⟩

lemma find_entity (he : e ∈ L.entities) (rest : List Char) :
    L.entities.find? (·.toList.isPrefixOf (e.toList ++ rest)) = some e := by
  cases hfind : L.entities.find? (·.toList.isPrefixOf (e.toList ++ rest)) with
  | none =>
    have hnone := List.find?_eq_none.1 hfind e he
    exact absurd (List.isPrefixOf_iff_prefix.2 (List.prefix_append _ _)) hnone
  | some e' =>
    have hmem := List.mem_of_find?_eq_some hfind
    have hprefix := List.isPrefixOf_iff_prefix.1 (List.find?_eq_some_iff_append.1 hfind).1
    obtain h | h := List.prefix_or_prefix_of_prefix hprefix (List.prefix_append e.toList rest)
    · rw [L.entity_unique e' hmem e he h]
    · rw [L.entity_unique e he e' hmem h]

lemma scan_char (h : L.Plain c) (rest : List Char) (stack : List String) :
    L.scan (c :: rest) stack = L.scan rest stack := by
  obtain ⟨hopen, hclose, hand, hrefused⟩ := h
  rw [scan, if_neg hopen, if_neg hclose, if_neg hand,
    if_neg (by rw [hrefused]; exact Bool.false_ne_true)]

lemma scan_entity (he : e ∈ L.entities) (rest : List Char) (stack : List String) :
    L.scan (e.toList ++ rest) stack = L.scan rest stack := by
  obtain ⟨cs, hcs⟩ := List.head?_eq_some_iff.1 (L.entity_start e he)
  have hfind := find_entity he rest
  have hdrop : (e.toList ++ rest).drop e.length = rest := by
    rw [← String.length_toList, List.drop_left]
  rw [hcs, List.cons_append] at hfind hdrop ⊢
  rw [scan, if_neg (by decide), if_neg (by decide), if_pos rfl]
  split
  · next entity h =>
    rw [hfind] at h
    obtain rfl := Option.some.inj h
    rw [hdrop]
  · next h =>
    rw [hfind] at h
    cases h

lemma scan_tag {inner : List Char} (h : '>' ∉ inner) (rest : List Char) (stack : List String) :
    L.scan ('<' :: (inner ++ '>' :: rest)) stack =
      match L.tag inner stack with
      | some stack => L.scan rest stack
      | none => false := by
  have hbracket : (inner ++ '>' :: rest).takeWhile (· ≠ '>') = inner ∧
      (inner ++ '>' :: rest).dropWhile (· ≠ '>') = '>' :: rest := until_bracket h
  obtain ⟨htake, hdrop⟩ := hbracket
  have hmem : '>' ∈ inner ++ '>' :: rest := List.mem_append_right _ List.mem_cons_self
  rw [scan, if_pos rfl, if_pos hmem, htake, hdrop]
  rfl

lemma scan_opening (ht : t ∈ L.tags) (hdepth : stack.length ≠ L.depth) (rest : List Char) :
    L.scan (opening t ++ rest) stack = L.scan rest (t :: stack) := by
  unfold opening
  rw [List.cons_append, List.append_assoc]
  show L.scan ('<' :: (t.toList ++ '>' :: rest)) stack = _
  rw [scan_tag (L.tag_name t ht).1, tag_opening ht hdepth]

lemma scan_closing (ht : t ∈ L.tags) (rest : List Char) (stack : List String) :
    L.scan (closing t ++ rest) (t :: stack) = L.scan rest stack := by
  have hname : '>' ∉ '/' :: t.toList := by
    rw [List.mem_cons, not_or]
    exact ⟨by decide, (L.tag_name t ht).1⟩
  unfold closing
  rw [List.cons_append, List.cons_append, List.append_assoc]
  show L.scan ('<' :: ('/' :: t.toList ++ '>' :: rest)) (t :: stack) = _
  rw [scan_tag hname, tag_closing ht]

/-- What stands at the front of a text that is accepted. -/
lemma scan_front {text : List Char} (h : L.scan text stack = true) (hne : text ≠ []) :
    (∃ c rest, text = c :: rest ∧ L.Plain c ∧ L.scan rest stack = true) ∨
    (∃ e ∈ L.entities, ∃ rest, text = e.toList ++ rest ∧ L.scan rest stack = true) ∨
    (∃ t ∈ L.tags, ∃ rest, text = opening t ++ rest ∧ stack.length ≠ L.depth ∧
      L.scan rest (t :: stack) = true) ∨
    ∃ t ∈ L.tags, ∃ rest stack', text = closing t ++ rest ∧ stack = t :: stack' ∧
      L.scan rest stack' = true := by
  obtain ⟨c, rest, rfl⟩ := List.exists_cons_of_ne_nil hne
  by_cases hopen : c = '<'
  · subst hopen
    by_cases hmem : '>' ∈ rest
    · obtain ⟨inner, after, rfl, hinner⟩ := List.eq_append_cons_of_mem hmem
      rw [scan_tag hinner] at h
      cases htag : L.tag inner stack with
      | none =>
        rw [htag] at h
        cases h
      | some stack' =>
        rw [htag] at h
        obtain ⟨t, ht, rfl, hdepth, rfl⟩ | ⟨t, ht, rfl, rfl⟩ := tag_some htag
        · exact .inr (.inr (.inl ⟨t, ht, after, by simp [opening], hdepth, h⟩))
        · exact .inr (.inr (.inr ⟨t, ht, after, stack', by simp [closing], rfl, h⟩))
    · rw [scan, if_pos rfl, if_neg hmem] at h
      cases h
  · by_cases hclose : c = '>'
    · rw [scan, if_neg hopen, if_pos hclose] at h
      cases h
    · by_cases hand : c = '&'
      · rw [scan, if_neg hopen, if_neg hclose, if_pos hand] at h
        split at h
        · next entity hfind =>
          obtain ⟨after, hafter⟩ :=
            List.isPrefixOf_iff_prefix.1 (List.find?_eq_some_iff_append.1 hfind).1
          rw [← hafter, ← String.length_toList, List.drop_left] at h
          exact .inr (.inl ⟨entity, List.mem_of_find?_eq_some hfind, after, hafter.symm, h⟩)
        · cases h
      · by_cases hrefused : L.refused c = true
        · rw [scan, if_neg hopen, if_neg hclose, if_neg hand, if_pos hrefused] at h
          cases h
        · have hplain : L.Plain c := ⟨hopen, hclose, hand, Bool.eq_false_iff.2 hrefused⟩
          rw [scan_char hplain] at h
          exact .inl ⟨c, rest, rfl, hplain, h⟩

/-! ## Whole texts -/

/-- Markup, and then the ends of the tags that are open, with markup after each. -/
def Rest (L : Markup) : List String → List Char → Prop
  | [], cs => L.Content L.depth cs
  | t :: stack, cs => ∃ inner after, cs = inner ++ (closing t ++ after) ∧ t ∈ L.tags ∧
      L.Content (L.depth - (stack.length + 1)) inner ∧ Rest L stack after

/-- What extends markup extends it before the ends of tags too. -/
lemma Rest.prepend {front : List Char} (h : L.Rest stack cs)
    (hfront : ∀ cs, L.Content (L.depth - stack.length) cs →
      L.Content (L.depth - stack.length) (front ++ cs)) : L.Rest stack (front ++ cs) := by
  cases stack with
  | nil => exact hfront cs h
  | cons t stack =>
    obtain ⟨inner, after, rfl, ht, hinner, hafter⟩ := h
    exact ⟨front ++ inner, after, (List.append_assoc _ _ _).symm, ht, hfront inner hinner, hafter⟩

/-- Markup is skipped. -/
lemma scan_content (h : L.Content n cs) (hn : stack.length + n = L.depth) (after : List Char) :
    L.scan (cs ++ after) stack = L.scan after stack := by
  induction h generalizing stack after with
  | nil n => rfl
  | char hc _ ih =>
    rw [List.cons_append, scan_char hc]
    exact ih hn after
  | entity he _ ih =>
    rw [List.append_assoc, scan_entity he]
    exact ih hn after
  | @element n t inner cs ht _ _ ihinner ihcs =>
    rw [List.append_assoc, scan_opening ht (by omega), List.append_assoc,
      ihinner (by rw [List.length_cons]; omega), List.append_assoc, scan_closing ht]
    exact ihcs hn after

lemma scan_of_rest (h : L.Rest stack cs) (hstack : stack.length ≤ L.depth) :
    L.scan cs stack = true := by
  induction stack generalizing cs with
  | nil =>
    have hscan : L.scan (cs ++ []) [] = L.scan [] [] := scan_content h (Nat.zero_add _) []
    rw [List.append_nil] at hscan
    rw [hscan, scan]
    rfl
  | cons t stack ih =>
    obtain ⟨inner, after, rfl, ht, hinner, hafter⟩ := h
    rw [List.length_cons] at hstack
    rw [scan_content hinner (by rw [List.length_cons]; omega), scan_closing ht]
    exact ih hafter (by omega)

lemma rest_of_scan (h : L.scan cs stack = true) (hstack : stack.length ≤ L.depth) :
    L.Rest stack cs := by
  induction hlen : cs.length using Nat.strong_induction_on generalizing cs stack with
  | h len ih =>
    subst hlen
    by_cases hne : cs = []
    · subst hne
      rw [scan, List.isEmpty_iff] at h
      subst h
      exact .nil _
    · obtain ⟨c, rest, rfl, hc, hrest⟩ | ⟨e, he, rest, rfl, hrest⟩ |
        ⟨t, ht, rest, rfl, hdepth, hrest⟩ | ⟨t, ht, rest, stack', rfl, rfl, hrest⟩ :=
        scan_front h hne
      · have hshort : rest.length < (c :: rest).length := Nat.lt_succ_self _
        have hfront : ∀ cs, L.Content (L.depth - stack.length) cs →
            L.Content (L.depth - stack.length) ([c] ++ cs) := fun _ => .char hc
        exact (ih _ hshort hrest hstack rfl).prepend hfront
      · have hshort : rest.length < (e.toList ++ rest).length := by
          rw [List.length_append]
          exact Nat.lt_add_of_pos_left (entity_length he)
        exact (ih _ hshort hrest hstack rfl).prepend fun _ => Content.entity he
      · have hshort : rest.length < (opening t ++ rest).length := by
          rw [List.length_append]
          exact Nat.lt_add_of_pos_left (Nat.succ_pos _)
        have hinside : (t :: stack).length ≤ L.depth := by
          rw [List.length_cons]
          omega
        obtain ⟨inner, after, rfl, -, hinner, hafter⟩ := ih _ hshort hrest hinside rfl
        have hlevel : L.depth - stack.length = L.depth - (stack.length + 1) + 1 := by omega
        have hfront : ∀ cs, L.Content (L.depth - stack.length) cs →
            L.Content (L.depth - stack.length) ((opening t ++ (inner ++ closing t)) ++ cs) := by
          intro cs hcs
          rw [hlevel] at hcs ⊢
          rw [List.append_assoc, List.append_assoc]
          exact .element ht hinner hcs
        have hwhole := hafter.prepend hfront
        rwa [List.append_assoc, List.append_assoc] at hwhole
      · have hshort : rest.length < (closing t ++ rest).length := by
          rw [List.length_append]
          exact Nat.lt_add_of_pos_left (Nat.succ_pos _)
        rw [List.length_cons] at hstack
        exact ⟨[], rest, rfl, ht, .nil _, ih _ hshort hrest (by omega) rfl⟩

/-- **A text is accepted exactly when it is markup.** -/
theorem scan_iff (cs : List Char) : L.scan cs [] = true ↔ L.Content L.depth cs :=
  ⟨fun h => rest_of_scan h (Nat.zero_le _), fun h => scan_of_rest h (Nat.zero_le _)⟩

end Markup

end Rnx
