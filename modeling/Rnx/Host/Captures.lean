import Rnx.Host.Escapes
import Rnx.Lib.Outcome
import Rnx.Rune.FormatArgs

/-!
# The captures of a format string

`format_captures` finds the names of a format string with two searches a group, where the expansion
of `format_args` reads a group with a state machine.  The two go on at the same place behind every
group of a format string that expands: a format specification has an opening brace only as a fill,
and the group the session then makes of it ends at the same closing brace.

* `expandFrom_captures`: every identifier an expansion captures is among the captures;
* `covered_iff`: the scan covers a literal exactly when no escape of it is lax, or some escape of it
  is one the session does not know.
-/

namespace Rnx

namespace Host.Evaluation

open Std (TreeMap TreeSet)
open Rune (LitStr Group parseSpec parseGroup MacroContext Expansion expandFrom expandInner FormatArg
  implicits Component ExprOrIdent Formatted)

/-! ## The search for names -/

/-- Fuel for the length of the text is enough. -/
lemma capturesFrom_fuel {f g : Nat} {l : List Char} (hf : l.length ≤ f) (hg : l.length ≤ g) :
    capturesFrom f l = capturesFrom g l := by
  induction f generalizing g l with
  | zero =>
    obtain rfl := List.eq_nil_of_length_eq_zero (Nat.le_zero.mp hf)
    rw [capturesFrom_nil, capturesFrom_nil]
  | succ f ih =>
    cases g with
    | zero =>
      obtain rfl := List.eq_nil_of_length_eq_zero (Nat.le_zero.mp hg)
      rw [capturesFrom_nil, capturesFrom_nil]
    | succ g =>
      have hdrop := (List.dropWhile_suffix (l := l) (· != '{')).length_le
      rw [capturesFrom, capturesFrom]
      split
      · rfl
      · next after heq =>
        rw [heq, List.length_cons, List.length_cons] at hdrop
        exact ih (by omega) (by omega)
      · next after _ heq =>
        rw [heq, List.length_cons] at hdrop
        generalize hname : after.takeWhile (fun c => c != '}' && c != ':') = name
        cases hrest : after.drop name.length with
        | nil => simp only [hrest]
        | cons c rest =>
          have hlen := congrArg List.length hrest
          rw [List.length_drop, List.length_cons] at hlen
          simp only [hrest]
          rw [ih (g := g) (by omega) (by omega)]

lemma formatCaptures_eq {fuel : Nat} {l : List Char} (h : l.length ≤ fuel) :
    capturesFrom fuel l = formatCaptures l := capturesFrom_fuel h (Nat.le_refl _)

/-- Text before the next opening brace names nothing. -/
lemma formatCaptures_skip (front : List Char) (h : '{' ∉ front) (rest : List Char) :
    formatCaptures (front ++ rest) = formatCaptures rest := by
  have hkeep : ∀ c ∈ front, (c != '{') = true := by
    intro c hc
    simpa using fun heq : c = '{' => h (heq ▸ hc)
  have hsame : ∀ fuel, capturesFrom (fuel + 1) (front ++ rest) = capturesFrom (fuel + 1) rest := by
    intro fuel
    rw [capturesFrom, capturesFrom, List.dropWhile_append_of_pos hkeep]
  rw [← formatCaptures_eq (Nat.le_succ (front ++ rest).length), hsame, formatCaptures_eq]
  rw [List.length_append]
  omega

lemma formatCaptures_double (rest : List Char) :
    formatCaptures ('{' :: '{' :: rest) = formatCaptures rest := by
  rw [← formatCaptures_eq (Nat.le_succ _), capturesFrom]
  simp only [List.dropWhile_cons, bne_self_eq_false, Bool.false_eq_true, if_false]
  exact formatCaptures_eq (by simp only [List.length_cons]; omega)

/-- The characters of a group's name, for the search. -/
def named (c : Char) : Bool := c != '}' && c != ':'

/-- What the search finds at an opening brace that is not doubled, where something ends the name. -/
lemma formatCaptures_group {name rest : List Char} {stop : Char} (hname : ∀ c ∈ name, named c)
    (hstop : named stop = false) (hopen : name.head? ≠ some '{') :
    formatCaptures ('{' :: (name ++ stop :: rest)) =
      (if name = [] then [] else [String.ofList name]) ++ formatCaptures rest := by
  have htake : (name ++ stop :: rest).takeWhile named = name := by
    rw [List.takeWhile_append_of_pos hname, List.takeWhile_cons, hstop]
    simp
  rw [← formatCaptures_eq (Nat.le_succ _), capturesFrom]
  simp only [List.dropWhile_cons, bne_self_eq_false, Bool.false_eq_true, if_false]
  split
  · next heq => cases heq
  · next after heq =>
    obtain ⟨-, heq⟩ := List.cons.inj heq
    cases name with
    | nil =>
      obtain ⟨rfl, -⟩ := List.cons.inj heq
      cases hstop
    | cons c name =>
      obtain ⟨rfl, -⟩ := List.cons.inj heq
      exact absurd rfl hopen
  · next after _ heq =>
    obtain ⟨-, rfl⟩ := List.cons.inj heq
    simp only [show (fun c => c != '}' && c != ':') = named from rfl, htake, List.drop_left]
    rw [formatCaptures_eq]
    simp only [List.length_cons, List.length_append]
    omega

/-! ## A format specification -/

/-- The characters a specification has behind its alignment. -/
def Inert (l : List Char) : Prop := '{' ∉ l ∧ '}' ∉ l ∧ ':' ∉ l

lemma Inert.named {l : List Char} (h : Inert l) : ∀ c ∈ l, Evaluation.named c := by
  intro c hc
  have hclose : c ≠ '}' := fun heq => h.2.1 (heq ▸ hc)
  have hcolon : c ≠ ':' := fun heq => h.2.2 (heq ▸ hc)
  simp [Evaluation.named, hclose, hcolon]

lemma inert_nil : Inert [] := by simp [Inert]

lemma Inert.cons {a : Char} {l : List Char} (ha : a ≠ '{' ∧ a ≠ '}' ∧ a ≠ ':') (h : Inert l) :
    Inert (a :: l) := by
  simp only [Inert, List.mem_cons, not_or]
  exact ⟨⟨ha.1.symm, h.1⟩, ⟨ha.2.1.symm, h.2.1⟩, ⟨ha.2.2.symm, h.2.2⟩⟩

/-- Behind the alignment a round leaves the name, and takes no brace and no colon. -/
lemma turn_inert {g : Group} {a b : Char} (hmode : 2 ≤ g.mode.index) :
    (g.turn a b).1.name = g.name ∧ 2 ≤ (g.turn a b).1.mode.index ∧
      ((g.turn a b).2 = 0 ∨ ((g.turn a b).2 = 1 ∧ a ≠ '{' ∧ a ≠ '}' ∧ a ≠ ':')) := by
  obtain ⟨mode, name, width, precision, flags, fill, align, inputPrecision, formatType⟩ := g
  cases mode with
  | start => simp [Rune.Mode.index] at hmode
  | fillAllign => simp [Rune.Mode.index] at hmode
  | type =>
    simp only [Group.turn]
    split
    · next t ht =>
      refine ⟨rfl, by simp [Rune.Mode.index], .inr ⟨rfl, ?_, ?_, ?_⟩⟩ <;> rintro rfl <;> cases ht
    · exact ⟨rfl, by simp [Rune.Mode.index], .inl rfl⟩
  | «end» => exact ⟨rfl, hmode, .inl rfl⟩
  | _ =>
    simp only [Group.turn]
    split_ifs
    all_goals refine ⟨rfl, by simp [Rune.Mode.index], ?_⟩
    all_goals first
      | exact .inl rfl
      | (refine .inr ⟨rfl, ?_, ?_, ?_⟩ <;> rintro rfl <;> simp_all [Char.isDigit])

/-- Behind the alignment a specification is inert up to the brace that closes the group. -/
lemma parseSpec_inert {g g' : Group} {l rest : List Char} (hmode : 2 ≤ g.mode.index)
    (h : parseSpec g l = .ok (g', rest)) :
    ∃ tail, l = tail ++ '}' :: rest ∧ Inert tail ∧ g'.name = g.name := by
  fun_induction parseSpec g l with
  | case1 g => cases h
  | case2 g after hend =>
    cases h
    exact ⟨[], rfl, inert_nil, rfl⟩
  | case3 g a after hend hclose => cases h
  | case4 g a after hend ih =>
    obtain ⟨hname, hlater, htaken⟩ := turn_inert (a := a) (b := after.headD (Char.ofNat 0)) hmode
    obtain ⟨tail, htail, hinert, hsame⟩ := ih hlater h
    rcases htaken with hzero | ⟨hone, ha⟩
    · rw [hzero, List.drop_zero] at htail
      exact ⟨tail, htail, hinert, hsame.trans hname⟩
    · rw [hone, List.drop_one, List.tail_cons] at htail
      exact ⟨a :: tail, by rw [htail]; rfl, hinert.cons ha, hsame.trans hname⟩

/-- A specification as the expansion reads it: inert, or a fill and an alignment before an inert
rest. -/
def Tame (spec : List Char) : Prop :=
  Inert spec ∨ ∃ fill align tail, spec = fill :: align :: tail ∧ Inert (align :: tail)

lemma align_inert {c : Char} (h : Rune.isAlign c) : c ≠ '{' ∧ c ≠ '}' ∧ c ≠ ':' := by
  refine ⟨?_, ?_, ?_⟩ <;> rintro rfl <;> exact absurd h (by decide)

lemma parseSpec_align {g g' : Group} {l rest : List Char} (hmode : g.mode = .fillAllign)
    (h : parseSpec g l = .ok (g', rest)) :
    ∃ spec, l = spec ++ '}' :: rest ∧ Tame spec ∧ g'.name = g.name := by
  cases l with
  | nil =>
    rw [parseSpec] at h
    cases h
  | cons a after =>
    rw [parseSpec, dif_neg (by rw [hmode]; decide)] at h
    simp only [Group.turn, hmode] at h
    split_ifs at h with ha hb
    · obtain ⟨tail, htail, hinert, hname⟩ := parseSpec_inert (by simp [Rune.Mode.index]) h
      refine ⟨a :: tail, ?_, .inl (hinert.cons (align_inert ha)), hname⟩
      rw [List.drop_one, List.tail_cons] at htail
      rw [htail]
      rfl
    · cases after with
      | nil => exact absurd hb (by decide)
      | cons b after =>
        obtain ⟨tail, htail, hinert, hname⟩ := parseSpec_inert (by simp [Rune.Mode.index]) h
        refine ⟨a :: b :: tail, ?_, .inr ⟨a, b, tail, rfl, hinert.cons (align_inert hb)⟩, hname⟩
        simp only [List.drop_succ_cons, List.drop_zero] at htail
        rw [htail]
        rfl
    · obtain ⟨tail, htail, hinert, hname⟩ := parseSpec_inert (by simp [Rune.Mode.index]) h
      exact ⟨tail, htail, .inl hinert, hname⟩

/-- What the expansion reads of a group: the name, up to the brace that closes the group or to a
colon with a specification and the brace behind it. -/
lemma parseSpec_group {g g' : Group} {l rest : List Char} (hmode : g.mode = .start)
    (h : parseSpec g l = .ok (g', rest)) :
    ∃ name, g'.name = g.name ++ name ∧ (∀ c ∈ name, named c) ∧
      (l = name ++ '}' :: rest ∨
        ∃ spec, l = name ++ ':' :: (spec ++ '}' :: rest) ∧ Tame spec) := by
  fun_induction parseSpec g l with
  | case1 g => cases h
  | case2 g after hend => exact absurd (hmode.symm.trans hend) (by decide)
  | case3 g a after hend hclose => cases h
  | case4 g a after hend ih =>
    simp only [Group.turn, hmode] at h ih
    split_ifs at h ih with hcolon hclose
    · subst hcolon
      rw [List.drop_one, List.tail_cons] at h
      obtain ⟨spec, hspec, htame, hname⟩ := parseSpec_align rfl h
      exact ⟨[], by rw [hname, List.append_nil], by simp, .inr ⟨spec, by rw [hspec]; rfl, htame⟩⟩
    · subst hclose
      rw [List.drop_zero, parseSpec, dif_pos rfl, if_pos rfl] at h
      cases h
      exact ⟨[], by rw [List.append_nil], by simp, .inl rfl⟩
    · rw [List.drop_one, List.tail_cons] at h ih
      obtain ⟨name, hname, hnamed, hl⟩ := ih rfl h
      refine ⟨a :: name, ?_, ?_, ?_⟩
      · rw [hname, List.append_assoc]
        rfl
      · intro c hc
        rcases List.mem_cons.mp hc with rfl | hc
        · simp [named, hcolon, hclose]
        · exact hnamed c hc
      · rcases hl with rfl | ⟨spec, rfl, htame⟩
        · exact .inl rfl
        · exact .inr ⟨spec, rfl, htame⟩

/-- The session goes on behind a specification where the expansion does. -/
lemma formatCaptures_tame {spec : List Char} (h : Tame spec) (rest : List Char) {name : String}
    (hname : name ∈ formatCaptures rest) : name ∈ formatCaptures (spec ++ '}' :: rest) := by
  rcases h with hinert | ⟨fill, align, tail, rfl, hinert⟩
  · have hskip := formatCaptures_skip (spec ++ ['}']) (by
      simpa using hinert.1) rest
    rw [List.append_assoc, List.singleton_append] at hskip
    rwa [hskip]
  · by_cases hfill : fill = '{'
    · subst hfill
      have hopen : (align :: tail).head? ≠ some '{' := by
        intro h
        cases h
        exact hinert.1 (List.mem_cons_self ..)
      have hstop : named '}' = false := rfl
      rw [List.cons_append, formatCaptures_group hinert.named hstop hopen]
      exact List.mem_append_right _ hname
    · have hskip := formatCaptures_skip (fill :: align :: tail ++ ['}']) (by
        have := hinert.1
        simp only [List.cons_append, List.mem_cons, List.mem_append, not_or] at this ⊢
        refine ⟨Ne.symm hfill, this.1, this.2, by decide, by simp⟩) rest
      rw [List.append_assoc, List.singleton_append] at hskip
      rwa [hskip]

/-! ## The expansion -/

section

variable {V : Type} {cx : MacroContext V} {pos : List V} {args : TreeMap String V}

lemma groupExpr_ident {g : Group} {u u' : Rune.Usage} {expr : ExprOrIdent V}
    (h : Rune.groupExpr pos args g u = .ok (expr, u')) {name : String}
    (hident : expr = .ident name) : name = String.ofList g.name ∧ g.name ≠ [] := by
  subst hident
  unfold Rune.groupExpr at h
  split_ifs at h with hempty
  · obtain ⟨r, -, hr⟩ := Except.bind_eq_ok.mp h
    cases hr
  · refine ⟨?_, hempty⟩
    split at h
    · split at h <;> cases h
    · split at h <;> cases h
      rfl

/-- A group that captures an identifier captures its name. -/
lemma parseGroup_captured {u u' : Rune.Usage} {input rest : List Char} {f : Formatted V}
    (h : parseGroup cx pos args u input = .ok (f, u', rest)) :
    ∃ g, parseSpec Group.new input = .ok (g, rest) ∧
      ∀ name, f.expr = .ident name → name = String.ofList g.name ∧ g.name ≠ [] := by
  obtain ⟨⟨g, after⟩, hspec, h⟩ := Except.bind_eq_ok.mp h
  obtain ⟨⟨precision, u₁⟩, -, h⟩ := Except.bind_eq_ok.mp h
  obtain ⟨⟨expr, u₂⟩, hexpr, h⟩ := Except.bind_eq_ok.mp h
  obtain ⟨width, -, h⟩ := Except.bind_eq_ok.mp h
  cases h
  exact ⟨g, hspec, fun name hname => groupExpr_ident hexpr hname⟩

lemma implicits_append (l m : List (Component V)) :
    implicits (l ++ m) = implicits l ++ implicits m := List.filterMap_append ..

@[simp] lemma implicits_flush (e : Expansion V) :
    implicits e.flush.components = implicits e.components := by
  unfold Expansion.flush
  split_ifs
  · rfl
  · simp [implicits, Component.implicit]

@[simp] lemma components_cut (e : Expansion V) (input : List Char) (place : Nat) :
    (e.cut input place).components = e.components := by
  unfold Expansion.cut
  split <;> rfl

/-- A group that expands: the search names what it captures, and goes on behind it. -/
lemma formatCaptures_expanded {g : Group} {input rest : List Char} (post : List Char)
    (h : parseSpec Group.new input = .ok (g, rest)) (hopen : input.headD (Char.ofNat 0) ≠ '{') :
    (g.name ≠ [] → String.ofList g.name ∈ formatCaptures ('{' :: (input ++ post))) ∧
      ∀ name ∈ formatCaptures (rest ++ post), name ∈ formatCaptures ('{' :: (input ++ post)) := by
  obtain ⟨name, hname, hnamed, hl⟩ := parseSpec_group rfl h
  rw [show Group.new.name = [] from rfl, List.nil_append] at hname
  rw [hname]
  have hhead : name.head? ≠ some '{' := by
    intro hhead
    obtain ⟨l, rfl⟩ : ∃ l, name = '{' :: l := by
      cases name with
      | nil => cases hhead
      | cons c l =>
        cases hhead
        exact ⟨l, rfl⟩
    rcases hl with rfl | ⟨spec, rfl, -⟩ <;> exact hopen rfl
  rcases hl with rfl | ⟨spec, rfl, htame⟩
  · rw [List.append_assoc, List.cons_append, formatCaptures_group hnamed rfl hhead]
    refine ⟨fun hne => ?_, fun n hn => List.mem_append_right _ hn⟩
    rw [if_neg hne]
    exact List.mem_append_left _ (List.mem_singleton_self _)
  · rw [List.append_assoc, List.cons_append, formatCaptures_group hnamed rfl hhead]
    refine ⟨fun hne => ?_, fun n hn => List.mem_append_right _ ?_⟩
    · rw [if_neg hne]
      exact List.mem_append_left _ (List.mem_singleton_self _)
    · rw [List.append_assoc, List.cons_append]
      exact formatCaptures_tame htame _ hn

lemma headD_cons {l : List Char} {c d : Char} (h : l.headD d = c) (hd : d ≠ c) :
    ∃ rest, l = c :: rest := by
  cases l with
  | nil => exact absurd h hd
  | cons a rest => exact ⟨rest, by rw [← h]; rfl⟩

lemma ident_of_implicit {f : Formatted V} {name : String}
    (h : name ∈ implicits [Component.format f]) : f.expr = .ident name := by
  obtain ⟨expr, fill, align, width, precision, flags, formatType⟩ := f
  cases expr with
  | expr value => simp [implicits, Component.implicit] at h
  | ident n =>
    simp only [implicits, Component.implicit, List.filterMap_cons, List.filterMap_nil,
      List.mem_singleton] at h
    rw [h]

/-- **The scan covers the formatter**: what an expansion captures is among the captures of the text,
whatever comes behind it. -/
lemma expandFrom_captures {input post : List Char} (fuel : Nat) (l : List Char)
    {e e' : Expansion V} (h : expandFrom cx input pos args fuel l e = .ok e') {name : String}
    (hname : name ∈ implicits e'.components) :
    name ∈ implicits e.components ∨ name ∈ formatCaptures (l ++ post) := by
  induction fuel generalizing l e with
  | zero =>
    cases h
    exact .inl hname
  | succ fuel ih =>
    cases l with
    | nil =>
      cases h
      exact .inl hname
    | cons a rest =>
      rw [expandFrom] at h
      simp only at h
      split_ifs at h with hclose hdouble hlone hgroup
      · -- Two closing braces: the search passes them by.
        obtain ⟨rfl, hb⟩ := hclose
        rcases ih rest.tail h with hleft | hright
        · exact .inl (by simpa using hleft)
        · right
          obtain ⟨after, rfl⟩ := headD_cons hb (by decide)
          rw [List.cons_append, List.cons_append]
          have hskip := formatCaptures_skip ['}', '}'] (by decide) (after ++ post)
          exact hskip.symm ▸ hright
      · obtain ⟨rfl, hb⟩ := hdouble
        rcases ih rest.tail h with hleft | hright
        · exact .inl (by simpa using hleft)
        · right
          obtain ⟨after, rfl⟩ := headD_cons hb (by decide)
          exact (formatCaptures_double (after ++ post)).symm ▸ hright
      · subst hgroup
        obtain ⟨⟨f, u, after⟩, hparse, h⟩ := Except.bind_eq_ok.mp h
        obtain ⟨g, hspec, hident⟩ := parseGroup_captured hparse
        obtain ⟨hfound, hbehind⟩ := formatCaptures_expanded post hspec
          (fun hb => hdouble ⟨rfl, hb⟩)
        rcases ih after h with hleft | hright
        · rw [implicits_append, List.mem_append] at hleft
          rcases hleft with hleft | hleft
          · exact .inl (by simpa using hleft)
          · right
            obtain ⟨rfl, hne⟩ := hident name (ident_of_implicit hleft)
            exact hfound hne
        · exact .inr (hbehind name hright)
      · rcases ih rest h with hleft | hright
        · exact .inl hleft
        · right
          exact (formatCaptures_skip [a] (by simpa using Ne.symm hgroup)
            (rest ++ post)).symm ▸ hright

lemma expandInner_captures {format post : List Char} {given : List (FormatArg V)}
    {components : List (Component V)} (h : expandInner cx format given = .ok components)
    {name : String} (hname : name ∈ implicits components) :
    name ∈ formatCaptures (format ++ post) := by
  obtain ⟨⟨pos, args⟩, -, h⟩ := Except.bind_eq_ok.mp h
  obtain ⟨⟨expanded, u⟩, hexpand, h⟩ := Except.bind_eq_ok.mp h
  obtain rfl : expanded = components := by
    dsimp only at h
    split_ifs at h
    split at h
    · cases h
    · cases h
      rfl
  obtain ⟨e, hloop, h⟩ := Except.bind_eq_ok.mp hexpand
  cases h
  rw [implicits_flush, components_cut] at hname
  rcases expandFrom_captures _ _ hloop hname with hnone | hfound
  · cases hnone
  · exact hfound

end

/-! ## The names of an input -/

/-- A literal the session cannot decode could name anything. -/
lemma scan_everything {published : TreeSet String} {tokens : List Token} {text : String}
    (hmem : ⟨.str, text⟩ ∈ tokens) (h : decode text = none) (found : TreeSet String) :
    scan published tokens found = published := by
  induction tokens generalizing found with
  | nil => cases hmem
  | cons token rest ih =>
    rw [scan]
    rcases List.mem_cons.mp hmem with rfl | hmem
    · simp only [h]
    · split
      · exact ih hmem _
      · split
        · rfl
        · exact ih hmem _
      · exact ih hmem _

lemma mentioned_everything {published : TreeSet String} {tokens : List Token} {text : String}
    (hmem : ⟨.str, text⟩ ∈ tokens) (h : decode text = none) (name : String) :
    name ∈ mentioned tokens published ↔ name ∈ published := by
  unfold mentioned
  split_ifs with hempty
  · rw [TreeSet.mem_iff_contains, TreeSet.mem_iff_contains, TreeSet.contains_of_isEmpty hempty]
    rfl
  · rw [scan_everything hmem h]

/-- The session's scan covers what the formatter reads of a literal. -/
structure Covered (l : LitStr) : Prop where
  /-- What it decodes is the string of the literal, between the quotes, and every identifier that an
  expansion of that string captures is among the captures. -/
  known : ∀ decoded, decode (String.ofList l.text) = some decoded →
    ∃ s, l.resolve = .ok s ∧ decoded = '"' :: (s ++ ['"']) ∧
      ∀ (V : Type) (cx : MacroContext V) (args : List (FormatArg V))
        (components : List (Component V)), expandInner cx s args = .ok components →
        ∀ name ∈ implicits components, name ∈ formatCaptures decoded
  /-- What it cannot decode stands for every published name. -/
  unknown : decode (String.ofList l.text) = none →
    ∀ (tokens : List Token) (published : TreeSet String),
      ⟨.str, String.ofList l.text⟩ ∈ tokens →
      ∀ name, name ∈ mentioned tokens published ↔ name ∈ published

/-- **Which literals the scan covers**: those without a lax escape, and those with an escape the
session does not know.  A lax escape, `\x80` and above or `\u{}`, is one the session decodes where
the language refuses the literal. -/
theorem covered_iff (l : LitStr) :
    Covered l ↔
      (∀ f ∈ fragments l.text, f.lax = false) ∨ ∃ f ∈ fragments l.text, f.known = false := by
  have hdecode := decode_fragments l
  constructor
  · intro h
    by_cases hknown : (fragments l.text).all Fragment.known
    · left
      rw [if_pos hknown] at hdecode
      obtain ⟨s, hs, -⟩ := h.known _ hdecode
      rcases resolve_fragments l hknown with ⟨hlax, -⟩ | ⟨-, e, he⟩
      · simpa using hlax
      · rw [hs] at he
        cases he
    · right
      simpa using hknown
  · intro h
    refine ⟨fun decoded hdecoded => ?_, fun hnone tokens published hmem name =>
      mentioned_everything hmem hnone name⟩
    have hknown : (fragments l.text).all Fragment.known := by
      by_contra hknown
      rw [if_neg hknown, hdecoded] at hdecode
      cases hdecode
    rw [if_pos hknown, hdecoded] at hdecode
    cases hdecode
    rcases resolve_fragments l hknown with ⟨-, s, hs, hvalue⟩ | ⟨hlax, -⟩
    · refine ⟨s, hs, hvalue, fun V cx args components hexpand name hname => ?_⟩
      rw [hvalue, ← List.singleton_append,
        formatCaptures_skip ['"'] (by decide) (s ++ ['"'])]
      exact expandInner_captures hexpand hname
    · exfalso
      rcases h with hstrict | ⟨f, hf, hunknown⟩
      · have : (fragments l.text).any Fragment.lax = false := by simpa using hstrict
        rw [this] at hlax
        cases hlax
      · have := List.all_eq_true.mp hknown f hf
        rw [hunknown] at this
        cases this

/-- `"\xff"`: the session decodes it, and the language refuses it. -/
theorem not_covered_byte : ¬ Covered ⟨['\\', 'x', 'f', 'f'], true, rfl⟩ := by
  intro h
  obtain ⟨s, hs, -⟩ := h.known ['"', 'ÿ', '"'] (by
    unfold decode
    rw [String.toList_ofList, String.length_ofList]
    decide)
  cases hs

end Host.Evaluation

end Rnx
