import Rnx.Host.Eval
import Rnx.Rune.Literal

/-!
# The escapes of a literal

The session decodes a string literal on its own, beside the rules the language resolves one by.
Both read the text as the same sequence of fragments, plain characters and escapes, and the two are
compared fragment by fragment.

* `decode_fragments`: the session decodes a text exactly when it knows every fragment;
* `resolve_fragments`: a literal of known fragments denotes what the session decodes, unless one of
  them is lax: a byte escape above `7f`, or a unicode escape without digits.
-/

namespace Rnx

namespace Host.Evaluation

open Rune (LitStr digit16 fromU32 parseHexEscape parseUnicodeDigits parseCharEscape
  parseEscapedFrom parseEscaped nextStr simpleEscape)

/-! ## Fragments -/

/-- A fragment of the text of a literal: a character, an escape of one character, `\xHH`, `\u{HEX}`,
or an escape that is cut short. -/
inductive Fragment
  | plain (c : Char)
  | escape (c : Char)
  | hex (high low : Char)
  | unicode (digits : List Char)
  | cut
deriving DecidableEq, Repr

/-- The first fragment of a text and what follows it. -/
def firstFragment (c : Char) (rest : List Char) : Fragment × List Char :=
  if c = '\\' then
    match rest with
    | [] => (.cut, [])
    | 'x' :: high :: low :: rest => (.hex high low, rest)
    | 'x' :: rest => (.cut, rest)
    | 'u' :: '{' :: rest =>
      if '}' ∈ rest then
        (.unicode (rest.takeWhile (· != '}')), (rest.dropWhile (· != '}')).tail)
      else (.cut, rest)
    | 'u' :: rest => (.cut, rest)
    | c :: rest => (.escape c, rest)
  else (.plain c, rest)

/-- What a text starts with: the fragment, and what follows it. -/
inductive Starts : List Char → Fragment → List Char → Prop
  | plain {c : Char} {rest : List Char} (hc : c ≠ '\\') : Starts (c :: rest) (.plain c) rest
  | lone : Starts ['\\'] .cut []
  | hex {high low : Char} {rest : List Char} :
      Starts ('\\' :: 'x' :: high :: low :: rest) (.hex high low) rest
  | hexCut {rest : List Char} (hshort : rest.length < 2) : Starts ('\\' :: 'x' :: rest) .cut rest
  | unicode {digits rest : List Char} (hdigits : '}' ∉ digits) :
      Starts ('\\' :: 'u' :: '{' :: (digits ++ '}' :: rest)) (.unicode digits) rest
  | unicodeOpen {rest : List Char} (hopen : '}' ∉ rest) :
      Starts ('\\' :: 'u' :: '{' :: rest) .cut rest
  | unicodeCut {rest : List Char} (hbrace : rest.head? ≠ some '{') :
      Starts ('\\' :: 'u' :: rest) .cut rest
  | escape {c : Char} {rest : List Char} (hx : c ≠ 'x') (hu : c ≠ 'u') :
      Starts ('\\' :: c :: rest) (.escape c) rest

/-- A text at the first of its closing braces. -/
lemma split_close {text : List Char} (h : '}' ∈ text) :
    text = text.takeWhile (· != '}') ++ '}' :: (text.dropWhile (· != '}')).tail := by
  induction text with
  | nil => cases h
  | cons c text ih =>
    by_cases hc : c = '}'
    · simp [hc]
    · have hmem : '}' ∈ text := by simpa [Ne.symm hc] using h
      have hkeep : (c != '}') = true := by simpa using hc
      simp only [List.takeWhile_cons, List.dropWhile_cons, hkeep, if_true, List.cons_append]
      exact congrArg _ (ih hmem)

lemma not_mem_takeWhile_close (text : List Char) : '}' ∉ text.takeWhile (· != '}') := by
  intro h
  have := List.all_eq_true.mp List.all_takeWhile '}' h
  simp at this

lemma starts_firstFragment (c : Char) (rest : List Char) :
    Starts (c :: rest) (firstFragment c rest).1 (firstFragment c rest).2 := by
  unfold firstFragment
  by_cases hc : c = '\\'
  · subst hc
    rw [if_pos rfl]
    split
    · exact .lone
    · exact .hex
    · next after hlong =>
      refine .hexCut ?_
      match after, hlong with
      | [], _ => simp
      | [_], _ => simp
      | a :: b :: l, hlong => exact (hlong a b l rfl).elim
    · next after =>
      split_ifs with hclose
      · have h := @Starts.unicode _ (after.dropWhile (· != '}')).tail
          (not_mem_takeWhile_close after)
        rwa [← split_close hclose] at h
      · exact .unicodeOpen hclose
    · next after hbrace =>
      refine .unicodeCut fun h => ?_
      obtain ⟨l, rfl⟩ : ∃ l, after = '{' :: l := by
        cases after with
        | nil => cases h
        | cons d l =>
          cases h
          exact ⟨l, rfl⟩
      exact hbrace l rfl
    · next d after _ hx _ hu => exact .escape hx hu
  · rw [if_neg hc]
    exact .plain hc

lemma Starts.plain_eq {text rest : List Char} {c : Char} (h : Starts text (.plain c) rest) :
    text = c :: rest := by
  cases h
  rfl

lemma Starts.length_lt {text rest : List Char} {p : Fragment} (h : Starts text p rest) :
    rest.length < text.length := by
  cases h <;> simp only [List.length_cons, List.length_nil, List.length_append] <;> omega

/-- The fragments of a text. -/
def fragments : List Char → List Fragment
  | [] => []
  | c :: rest => (firstFragment c rest).1 :: fragments (firstFragment c rest).2
termination_by text => text.length
decreasing_by
  exact (starts_firstFragment c rest).length_lt

/-- The number that hexadecimal digits write. -/
def hexNumber (digits : List Char) : Nat :=
  digits.foldl (fun n c => n * 16 + (hexDigit c).getD 0) 0

/-- The escapes the session knows. -/
def Fragment.known : Fragment → Bool
  | .plain _ => true
  | .escape c => c ∈ ['n', 'r', 't', '0', '\\', '\'', '"']
  | .hex high low => (hexDigit high).isSome && (hexDigit low).isSome
  | .unicode digits =>
    digits.all (fun c => (hexDigit c).isSome) && (charOf (hexNumber digits)).isSome
  | .cut => false

/-- The escapes the session knows and the language refuses. -/
def Fragment.lax : Fragment → Bool
  | .hex high low => decide (0x7f < hexNumber [high, low])
  | .unicode digits => digits.isEmpty
  | _ => false

/-- The character of a fragment the session knows. -/
def Fragment.value : Fragment → Char
  | .plain c => c
  | .escape c => (simpleEscape c).getD c
  | .hex high low => (charOf (hexNumber [high, low])).getD 'x'
  | .unicode digits => (charOf (hexNumber digits)).getD 'u'
  | .cut => 'x'

/-! ## The session's decoder -/

lemma simpleEscape_eq (c : Char) :
    simpleEscape c =
      if (Fragment.escape c).known then some (Fragment.escape c).value else none := by
  simp only [Fragment.known, Fragment.value]
  unfold simpleEscape
  split <;> simp_all

lemma decodeFrom_escape {c : Char} (hx : c ≠ 'x') (hu : c ≠ 'u') (fuel : Nat) (rest : List Char) :
    decodeFrom (fuel + 1) ('\\' :: c :: rest) =
      (simpleEscape c).bind fun c => (decodeFrom fuel rest).map (c :: ·) := by
  unfold simpleEscape
  split
  case h_8 =>
    rw [decodeFrom]
    all_goals simp_all
  all_goals rfl

lemma decodeFrom_hex (high low : Char) (fuel : Nat) (rest : List Char) :
    decodeFrom (fuel + 1) ('\\' :: 'x' :: high :: low :: rest) =
      (hexDigit high).bind fun h => (hexDigit low).bind fun l =>
        (charOf (h * 16 + l)).bind fun c => (decodeFrom fuel rest).map (c :: ·) := rfl

lemma decodeFrom_unicode (fuel : Nat) (text : List Char) :
    decodeFrom (fuel + 1) ('\\' :: 'u' :: '{' :: text) =
      (hexBraced 0 text).bind fun read =>
        (charOf read.1).bind fun c => (decodeFrom fuel read.2).map (c :: ·) := rfl

lemma hexBraced_open (value : Nat) (text : List Char) (h : '}' ∉ text) :
    hexBraced value text = none := by
  induction text generalizing value with
  | nil => rfl
  | cons c text ih =>
    rw [List.mem_cons, not_or] at h
    rw [hexBraced]
    · simp only [ih _ h.2]
      split_ifs
      · rfl
      · cases hexDigit c <;> simp
    · exact fun hc => h.1 hc.symm

lemma le_foldl_digits (l : List Char) (n : Nat) :
    n ≤ l.foldl (fun n c => n * 16 + (hexDigit c).getD 0) n := by
  induction l generalizing n with
  | nil => exact Nat.le_refl _
  | cons c l ih =>
    have := ih (n * 16 + (hexDigit c).getD 0)
    rw [List.foldl_cons]
    omega

/-- Digits below a bound that is not passed are read as the number they write. -/
lemma hexBraced_eq (value : Nat) (digits rest : List Char) (hopen : '}' ∉ digits)
    (hvalue : value < 2 ^ 32) :
    hexBraced value (digits ++ '}' :: rest) =
      if digits.all (fun c => (hexDigit c).isSome) ∧
          digits.foldl (fun n c => n * 16 + (hexDigit c).getD 0) value < 2 ^ 32 then
        some (digits.foldl (fun n c => n * 16 + (hexDigit c).getD 0) value, rest)
      else none := by
  induction digits generalizing value with
  | nil =>
    rw [List.nil_append, hexBraced, if_pos ⟨rfl, hvalue⟩]
    rfl
  | cons c digits ih =>
    rw [List.mem_cons, not_or] at hopen
    rw [List.cons_append, hexBraced]
    · cases hd : hexDigit c with
      | none => simp [hd]
      | some d =>
        simp only [hd, Option.bind_eq_bind, Option.bind_some, List.foldl_cons, List.all_cons,
          Option.isSome_some, Option.getD_some, Bool.true_and]
        -- A product or a sum past the bound leaves a number past it, whatever digits follow.
        have hpast : ∀ n, 2 ^ 32 ≤ n → ∀ l : List Char,
            ¬ l.foldl (fun n c => n * 16 + (hexDigit c).getD 0) n < 2 ^ 32 := by
          intro n hn l
          exact Nat.not_lt.mpr (Nat.le_trans hn (le_foldl_digits l n))
        by_cases hs : 2 ^ 32 ≤ value * 16 + d
        · have hend : ¬ (digits.all (fun c => (hexDigit c).isSome) ∧
              digits.foldl (fun n c => n * 16 + (hexDigit c).getD 0) (value * 16 + d) < 2 ^ 32) :=
            fun h => hpast _ hs _ h.2
          rw [if_neg hend]
          split_ifs <;> rfl
        · have hp : ¬ 2 ^ 32 ≤ value * 16 := by omega
          simp only [hp, hs, if_false]
          exact ih _ hopen.2 (by omega)
    · exact fun hc => hopen.1 hc.symm

lemma hexBraced_digits {digits : List Char} (rest : List Char) (hopen : '}' ∉ digits) :
    hexBraced 0 (digits ++ '}' :: rest) =
      if digits.all (fun c => (hexDigit c).isSome) ∧ hexNumber digits < 2 ^ 32 then
        some (hexNumber digits, rest)
      else none :=
  hexBraced_eq 0 digits rest hopen (by decide)

lemma hexDigit_lt {c : Char} {d : Nat} (h : hexDigit c = some d) : d < 16 := by
  unfold hexDigit at h
  split_ifs at h with hn hl hu
  all_goals cases h
  · have : c.toNat ≤ 57 := Char.le_def.mp hn.2
    change c.toNat - 48 < 16
    omega
  · have : c.toNat ≤ 102 := Char.le_def.mp hl.2
    change c.toNat - 97 + 10 < 16
    omega
  · have : c.toNat ≤ 70 := Char.le_def.mp hu.2
    change c.toNat - 65 + 10 < 16
    omega

lemma charOf_isSome {n : Nat} : (charOf n).isSome ↔ n.isValidChar := by
  by_cases h : n.isValidChar
  · rw [charOf, dif_pos h]
    exact iff_of_true rfl h
  · rw [charOf, dif_neg h]
    exact iff_of_false Bool.false_ne_true h

/-- A round of the decoder takes the first fragment, if it knows it. -/
lemma Starts.decodeFrom {text rest : List Char} {p : Fragment} (h : Starts text p rest)
    (fuel : Nat) :
    decodeFrom (fuel + 1) text =
      if p.known then (decodeFrom fuel rest).map (p.value :: ·) else none := by
  cases h with
  | plain hc =>
    rw [decodeFrom_plain hc]
    rfl
  | lone => rfl
  | hex =>
    rename_i high low
    rw [decodeFrom_hex]
    cases hh : hexDigit high with
    | none => simp [Fragment.known, hh]
    | some h =>
      cases hl : hexDigit low with
      | none => simp [Fragment.known, hh, hl]
      | some l =>
        have hvalid : (charOf (h * 16 + l)).isSome := by
          rw [charOf_isSome]
          have := hexDigit_lt hh
          have := hexDigit_lt hl
          exact Or.inl (by omega)
        obtain ⟨x, hx⟩ := Option.isSome_iff_exists.mp hvalid
        simp [Fragment.known, Fragment.value, hexNumber, hh, hl, hx]
  | hexCut hshort =>
    match rest, hshort with
    | [], _ => rfl
    | [_], _ => rfl
  | unicode hdigits =>
    rename_i digits
    rw [decodeFrom_unicode, hexBraced_digits rest hdigits]
    by_cases hall : digits.all fun c => (hexDigit c).isSome
    · cases hchar : charOf (hexNumber digits) with
      | none =>
        rw [if_neg (show ¬ (Fragment.unicode digits).known by simp [Fragment.known, hchar])]
        split_ifs
        · simp [hchar]
        · rfl
      | some x =>
        have hlt : hexNumber digits < 2 ^ 32 := by
          have hvalid := charOf_isSome.mp (by rw [hchar]; rfl)
          rcases hvalid with h | h <;> omega
        rw [if_pos ⟨hall, hlt⟩]
        simp [Fragment.known, Fragment.value, hall, hchar]
    · simp [Fragment.known, hall]
  | unicodeOpen hopen =>
    rw [decodeFrom_unicode, hexBraced_open 0 rest hopen]
    rfl
  | unicodeCut hbrace =>
    cases rest with
    | nil => rfl
    | cons c rest =>
      have hc : c ≠ '{' := fun h => hbrace (by rw [h]; rfl)
      rw [Evaluation.decodeFrom]
      · rfl
      all_goals simp_all
  | escape hx hu =>
    rw [decodeFrom_escape hx hu, simpleEscape_eq]
    split_ifs <;> rfl

/-- The session decodes a text whose fragments it knows, fragment by fragment, and no other. -/
lemma decodeFrom_fragments (fuel : Nat) (text : List Char) (hfuel : text.length ≤ fuel) :
    decodeFrom fuel text =
      if (fragments text).all Fragment.known then some ((fragments text).map Fragment.value)
      else none := by
  induction fuel generalizing text with
  | zero =>
    obtain rfl := List.eq_nil_of_length_eq_zero (Nat.le_zero.mp hfuel)
    rw [fragments]
    rfl
  | succ fuel ih =>
    cases text with
    | nil =>
      rw [fragments]
      rfl
    | cons c rest =>
      have hstart := starts_firstFragment c rest
      have hshort := hstart.length_lt
      rw [hstart.decodeFrom, ih _ (by omega), fragments]
      by_cases hknown : (firstFragment c rest).1.known
      · simp only [hknown, if_true, List.all_cons, Bool.true_and, List.map_cons]
        split_ifs <;> rfl
      · simp [hknown]

/-! ## The language's resolver -/

lemma digit16_eq (c : Char) : digit16 c = hexDigit c := rfl

lemma fromU32_eq (n : Nat) : fromU32 n = charOf n := rfl

lemma parseHexEscape_pair {high low : Char} {h l : Nat} (hh : hexDigit high = some h)
    (hl : hexDigit low = some l) (rest : List Char) :
    parseHexEscape 0 2 (high :: low :: rest) = .ok (h * 16 + l, rest) := by
  have hlt := hexDigit_lt hh
  have hshift : Rune.shl4 h = h * 16 := Nat.mod_eq_of_lt (by omega)
  simp only [parseHexEscape, digit16_eq, hh, hl, Rune.shl4, Nat.zero_mul, Nat.zero_mod,
    Nat.zero_add]
  rw [Nat.mod_eq_of_lt (by omega)]

/-- Digits whose number is a character are shifted in without a loss. -/
lemma parseUnicodeDigits_eq (first : Bool) (value : Nat) {digits : List Char} {x : Char}
    (rest : List Char) (hdigits : '}' ∉ digits) (hall : digits.all fun c => (hexDigit c).isSome)
    (hx : charOf (digits.foldl (fun n c => n * 16 + (hexDigit c).getD 0) value) = some x) :
    parseUnicodeDigits first value (digits ++ '}' :: rest) =
      if first && digits.isEmpty then .error .badUnicodeEscape else .ok (x, rest) := by
  induction digits generalizing first value with
  | nil =>
    have hx : fromU32 value = some x := hx
    rw [List.nil_append, parseUnicodeDigits, hx]
    cases first <;> rfl
  | cons c digits ih =>
    rw [List.mem_cons, not_or] at hdigits
    simp only [List.all_cons, Bool.and_eq_true] at hall
    obtain ⟨d, hd⟩ := Option.isSome_iff_exists.mp hall.1
    rw [List.foldl_cons, hd, Option.getD_some] at hx
    have hbound : value * 16 + d < 2 ^ 32 := by
      have hle := le_foldl_digits digits (value * 16 + d)
      rcases charOf_isSome.mp (by rw [hx]; rfl) with h | h <;> omega
    have hshift : Rune.shl4 value = value * 16 := Nat.mod_eq_of_lt (by omega)
    rw [List.cons_append, parseUnicodeDigits]
    · rw [digit16_eq, hd]
      simp only [hshift]
      rw [ih false (value * 16 + d) hdigits.2 hall.2 hx]
      simp
    · exact fun hc => hdigits.1 hc.symm

lemma parseCharEscape_hex {high low : Char} {h l : Nat} (hh : hexDigit high = some h)
    (hl : hexDigit low = some l) (rest : List Char) :
    parseCharEscape ('x' :: high :: low :: rest) =
      if (Fragment.hex high low).lax then .error .badHexEscapeChar
      else .ok (some (Fragment.hex high low).value, rest) := by
  have hnumber : hexNumber [high, low] = h * 16 + l := by simp [hexNumber, hh, hl]
  have hvalid : (charOf (h * 16 + l)).isSome := by
    rw [charOf_isSome]
    have := hexDigit_lt hh
    have := hexDigit_lt hl
    exact Or.inl (by omega)
  obtain ⟨x, hx⟩ := Option.isSome_iff_exists.mp hvalid
  simp only [parseCharEscape, parseHexEscape_pair hh hl, bind, Except.bind, Fragment.lax, hnumber,
    Fragment.value, fromU32_eq, hx, decide_eq_true_eq, Option.getD_some]

lemma parseCharEscape_escape {c : Char} (hknown : (Fragment.escape c).known) (hx : c ≠ 'x')
    (hu : c ≠ 'u') (rest : List Char) :
    parseCharEscape (c :: rest) = .ok (some (Fragment.escape c).value, rest) := by
  have hbreak : ¬ (c = '\n' ∨ c = '\r') := by
    rintro (rfl | rfl)
    · exact absurd hknown (by decide)
    · exact absurd hknown (by decide)
  rw [parseCharEscape]
  · rw [if_neg hbreak, simpleEscape_eq, if_pos hknown]
  · exact hx
  · exact hu

lemma parseEscapedFrom_ok {rest after : List Char} {x : Char}
    (h : parseCharEscape rest = .ok (some x, after)) (fuel : Nat) :
    parseEscapedFrom (fuel + 1) ('\\' :: rest) = (parseEscapedFrom fuel after).map (x :: ·) := by
  rw [parseEscapedFrom, h]
  cases hrest : parseEscapedFrom fuel after with
  | error e => simp only [bind, Except.bind, hrest]; rfl
  | ok buffer => simp only [bind, Except.bind, hrest]; rfl

lemma parseEscapedFrom_error {rest : List Char} {e : Rune.ErrorKind}
    (h : parseCharEscape rest = .error e) (fuel : Nat) :
    parseEscapedFrom (fuel + 1) ('\\' :: rest) = .error e := by
  rw [parseEscapedFrom, h]
  rfl

/-- A round of the resolver takes a first fragment that the session knows, or refuses it as lax. -/
lemma Starts.parseEscaped {text rest : List Char} {p : Fragment} (h : Starts text p rest)
    (hknown : p.known) (fuel : Nat) :
    (p.lax = false ∧
        parseEscapedFrom (fuel + 1) text = (parseEscapedFrom fuel rest).map (p.value :: ·)) ∨
      (p.lax = true ∧ ∃ e, parseEscapedFrom (fuel + 1) text = .error e) := by
  cases h with
  | plain hc =>
    refine .inl ⟨rfl, ?_⟩
    rw [parseEscapedFrom]
    · cases parseEscapedFrom fuel rest <;> rfl
    · exact hc
  | lone => cases hknown
  | hex =>
    rename_i high low
    simp only [Fragment.known, Bool.and_eq_true] at hknown
    obtain ⟨h, hh⟩ := Option.isSome_iff_exists.mp hknown.1
    obtain ⟨l, hl⟩ := Option.isSome_iff_exists.mp hknown.2
    have hparse := parseCharEscape_hex hh hl rest
    cases hlax : (Fragment.hex high low).lax with
    | true =>
      rw [hlax, if_pos rfl] at hparse
      exact .inr ⟨rfl, _, parseEscapedFrom_error hparse fuel⟩
    | false =>
      rw [hlax, if_neg Bool.false_ne_true] at hparse
      exact .inl ⟨rfl, parseEscapedFrom_ok hparse fuel⟩
  | hexCut => cases hknown
  | unicode hdigits =>
    rename_i digits
    simp only [Fragment.known, Bool.and_eq_true] at hknown
    obtain ⟨x, hx⟩ := Option.isSome_iff_exists.mp hknown.2
    have hparse := parseUnicodeDigits_eq true 0 rest hdigits hknown.1 hx
    cases digits with
    | nil => exact .inr ⟨rfl, .badUnicodeEscape, rfl⟩
    | cons c digits =>
      have hvalue : (Fragment.unicode (c :: digits)).value = x := by simp [Fragment.value, hx]
      refine .inl ⟨rfl, parseEscapedFrom_ok ?_ fuel⟩
      rw [parseCharEscape, Rune.parseUnicodeEscape, hparse, hvalue]
      rfl
  | unicodeOpen => cases hknown
  | unicodeCut => cases hknown
  | escape hx hu =>
    exact .inl ⟨rfl, parseEscapedFrom_ok (parseCharEscape_escape hknown hx hu rest) fuel⟩

/-- The language resolves a text whose fragments the session knows, unless one of them is lax. -/
lemma parseEscapedFrom_fragments (fuel : Nat) (text : List Char) (hfuel : text.length ≤ fuel)
    (hknown : (fragments text).all Fragment.known) :
    ((fragments text).any Fragment.lax = false ∧
        parseEscapedFrom fuel text = .ok ((fragments text).map Fragment.value)) ∨
      ((fragments text).any Fragment.lax = true ∧ ∃ e, parseEscapedFrom fuel text = .error e) := by
  induction fuel generalizing text with
  | zero =>
    obtain rfl := List.eq_nil_of_length_eq_zero (Nat.le_zero.mp hfuel)
    rw [fragments]
    exact .inl ⟨rfl, rfl⟩
  | succ fuel ih =>
    cases text with
    | nil =>
      rw [fragments]
      exact .inl ⟨rfl, rfl⟩
    | cons c rest =>
      have hstart := starts_firstFragment c rest
      have hshort := hstart.length_lt
      rw [fragments] at hknown ⊢
      rw [List.all_cons, Bool.and_eq_true] at hknown
      rw [List.any_cons]
      rcases hstart.parseEscaped hknown.1 fuel with ⟨hlax, hround⟩ | ⟨hlax, e, hround⟩
      · rw [hlax, Bool.false_or, hround]
        rcases ih _ (by omega) hknown.2 with ⟨hrest, hok⟩ | ⟨hrest, e, herror⟩
        · exact .inl ⟨hrest, by rw [hok]; rfl⟩
        · exact .inr ⟨hrest, e, by rw [herror]; rfl⟩
      · exact .inr ⟨by rw [hlax, Bool.true_or], e, hround⟩

/-! ## The text between the quotes -/

lemma takeWhile_close {digits : List Char} (h : '}' ∉ digits) (rest : List Char) :
    (digits ++ '}' :: rest).takeWhile (· != '}') = digits ∧
      (digits ++ '}' :: rest).dropWhile (· != '}') = '}' :: rest := by
  have hkeep : ∀ c ∈ digits, (c != '}') = true := by
    intro c hc
    simpa using fun heq : c = '}' => h (heq ▸ hc)
  refine ⟨?_, ?_⟩
  · rw [List.takeWhile_append_of_pos hkeep]
    simp
  · rw [List.dropWhile_append_of_pos hkeep]
    simp

lemma Starts.firstFragment {text rest : List Char} {p : Fragment} (h : Starts text p rest) :
    ∃ c after, text = c :: after ∧ firstFragment c after = (p, rest) := by
  cases h with
  | plain hc =>
    refine ⟨_, _, rfl, ?_⟩
    unfold Evaluation.firstFragment
    rw [if_neg hc]
  | lone => exact ⟨_, _, rfl, rfl⟩
  | hex => exact ⟨_, _, rfl, rfl⟩
  | hexCut hshort =>
    match rest, hshort with
    | [], _ => exact ⟨_, _, rfl, rfl⟩
    | [_], _ => exact ⟨_, _, rfl, rfl⟩
  | unicode hdigits =>
    refine ⟨_, _, rfl, ?_⟩
    unfold Evaluation.firstFragment
    simp only [List.mem_append, List.mem_cons, true_or, or_true, if_true,
      takeWhile_close hdigits rest, List.tail_cons]
  | unicodeOpen hopen =>
    refine ⟨_, _, rfl, ?_⟩
    unfold Evaluation.firstFragment
    simp only [hopen, if_false, if_true]
  | unicodeCut hbrace =>
    cases rest with
    | nil => exact ⟨_, _, rfl, rfl⟩
    | cons c rest =>
      have hc : c ≠ '{' := fun h => hbrace (by rw [h]; rfl)
      refine ⟨_, _, rfl, ?_⟩
      unfold Evaluation.firstFragment
      rw [if_pos rfl]
      split <;> grind
  | escape hx hu =>
    refine ⟨_, _, rfl, ?_⟩
    unfold Evaluation.firstFragment
    rw [if_pos rfl]
    split <;> simp_all

lemma fragments_cons {text rest : List Char} {p : Fragment} (h : Starts text p rest) :
    fragments text = p :: fragments rest := by
  obtain ⟨c, after, rfl, hfirst⟩ := h.firstFragment
  rw [fragments, hfirst]

/-- Plain characters are lexed one by one. -/
lemma nextStr_run {l : List Char} (h : ∀ c ∈ l, c ≠ '"' ∧ c ≠ '\\') (escaped : Bool)
    (rest : List Char) :
    nextStr escaped (l ++ rest) =
      (nextStr escaped rest).map fun r => (r.1, l ++ r.2.1, r.2.2) := by
  induction l with
  | nil =>
    rw [List.nil_append]
    cases nextStr escaped rest <;> rfl
  | cons c l ih =>
    obtain ⟨hquote, hslash⟩ := h c (List.mem_cons_self ..)
    rw [List.cons_append, Rune.nextStr_plain hquote hslash,
      ih fun d hd => h d (List.mem_cons_of_mem _ hd)]
    cases nextStr escaped rest <;> rfl

lemma hexDigit_plain {c : Char} (h : (hexDigit c).isSome) : c ≠ '"' ∧ c ≠ '\\' := by
  constructor <;> rintro rfl <;> exact absurd h (by decide)

/-- A fragment the session knows is read alike wherever the text goes on, and lexed whole. -/
lemma Starts.lexed {text rest : List Char} {p : Fragment} (h : Starts text p rest)
    (hknown : p.known) (hquote : p ≠ .plain '"') (escaped : Bool) :
    ∃ front e, text = front ++ rest ∧ (∀ after, Starts (front ++ after) p after) ∧
      ∀ after, nextStr escaped (front ++ after) =
        (nextStr e after).map fun r => (r.1, front ++ r.2.1, r.2.2) := by
  cases h with
  | plain hc =>
    rename_i c
    refine ⟨[c], escaped, rfl, fun after => .plain hc, fun after => ?_⟩
    exact nextStr_run (by simpa using ⟨fun h => hquote (h ▸ rfl), hc⟩) escaped after
  | lone => cases hknown
  | hex =>
    rename_i high low
    simp only [Fragment.known, Bool.and_eq_true] at hknown
    refine ⟨['\\', 'x', high, low], true, rfl, fun after => .hex, fun after => ?_⟩
    have hrun := nextStr_run (l := [high, low]) (by
      simpa using ⟨hexDigit_plain hknown.1, hexDigit_plain hknown.2⟩) true after
    rw [show ['\\', 'x', high, low] ++ after = '\\' :: 'x' :: ([high, low] ++ after) from rfl,
      Rune.nextStr_escape, hrun]
    cases nextStr true after <;> rfl
  | hexCut => cases hknown
  | unicode hdigits =>
    rename_i digits
    simp only [Fragment.known, Bool.and_eq_true, List.all_eq_true] at hknown
    refine ⟨'\\' :: 'u' :: '{' :: (digits ++ ['}']), true, by simp, fun after => ?_,
      fun after => ?_⟩
    · have h := @Starts.unicode _ after hdigits
      simpa using h
    · have hrun := nextStr_run (l := '{' :: (digits ++ ['}'])) (by
        intro c hc
        simp only [List.mem_cons, List.mem_append, List.not_mem_nil, or_false] at hc
        rcases hc with rfl | hc | rfl
        · decide
        · exact hexDigit_plain (hknown.1 c hc)
        · decide) true after
      rw [List.cons_append, List.cons_append, Rune.nextStr_escape, hrun]
      cases nextStr true after <;> rfl
  | unicodeOpen => cases hknown
  | unicodeCut => cases hknown
  | escape hx hu =>
    rename_i c
    refine ⟨['\\', c], true, rfl, fun after => .escape hx hu, fun after => ?_⟩
    rw [List.cons_append, List.cons_append, List.nil_append, Rune.nextStr_escape]
    cases nextStr true after <;> rfl

/-- The closing quote is a fragment of its own behind the fragments of the body. -/
lemma fragments_quote {body : List Char} {escaped e : Bool}
    (h : nextStr escaped (body ++ ['"']) = .ok (e, body, []))
    (hknown : (fragments (body ++ ['"'])).all Fragment.known) :
    fragments (body ++ ['"']) = fragments body ++ [Fragment.plain '"'] := by
  induction hn : body.length using Nat.strongRecOn generalizing body escaped with
  | _ n ih =>
    subst hn
    obtain ⟨c, text, htext⟩ : ∃ c text, body ++ ['"'] = c :: text := by
      cases body with
      | nil => exact ⟨_, _, rfl⟩
      | cons c body => exact ⟨c, body ++ ['"'], rfl⟩
    have hstart := starts_firstFragment c text
    rw [← htext] at hstart
    generalize (firstFragment c text).1 = p at hstart
    generalize (firstFragment c text).2 = rest at hstart
    rw [fragments_cons hstart, List.all_cons, Bool.and_eq_true] at hknown
    by_cases hquote : p = .plain '"'
    · -- An unescaped quote closes the literal, so nothing stands before it.
      subst hquote
      have hbody := hstart.plain_eq
      rw [hbody, nextStr] at h
      cases h
      cases hbody
      rw [fragments_cons hstart, fragments]
      rfl
    · obtain ⟨front, e', hsplit, hlocal, hlex⟩ := hstart.lexed hknown.1 hquote escaped
      rw [hsplit, hlex] at h
      rcases List.eq_nil_or_concat rest with rfl | ⟨init, d, rfl⟩
      · cases h
      · rw [List.concat_eq_append, ← List.append_assoc] at hsplit
        rw [List.concat_eq_append] at h hstart hknown
        obtain ⟨hbody, hd⟩ := List.append_inj' hsplit rfl
        cases hd
        subst hbody
        cases hrest : nextStr e' (init ++ ['"']) with
        | error e => rw [hrest] at h; cases h
        | ok r =>
          rw [hrest] at h
          obtain ⟨e'', inner, after⟩ := r
          simp only [Except.map, Except.ok.injEq, Prod.mk.injEq, List.append_cancel_left_eq] at h
          obtain ⟨rfl, rfl, rfl⟩ := h
          have hshort := (hlocal inner).length_lt
          rw [fragments_cons hstart, fragments_cons (hlocal inner),
            ih inner.length hshort hrest hknown.2 rfl]
          rfl

/-- Without an escape the text of a literal is its string. -/
lemma nextStr_plain_body {escaped : Bool} {input body rest : List Char}
    (h : nextStr escaped input = .ok (false, body, rest)) : escaped = false ∧ '\\' ∉ body := by
  induction escaped, input using Rnx.Rune.nextStr.induct generalizing body rest with
  | case1 escaped => cases h
  | case2 escaped after =>
    cases h
    exact ⟨rfl, by simp⟩
  | case3 escaped => cases h
  | case4 escaped c after ih =>
    rw [Rune.nextStr_escape] at h
    cases hn : nextStr true after with
    | error e => rw [hn] at h; cases h
    | ok r =>
      rw [hn] at h
      obtain ⟨e, inner, after⟩ := r
      cases h
      exact absurd (ih hn).1 (by decide)
  | case5 escaped c after hquote hlone hslash ih =>
    have hc : c ≠ '\\' := by
      rintro rfl
      cases after with
      | nil => exact hlone rfl rfl
      | cons d after => exact hslash d after rfl rfl
    rw [Rune.nextStr_plain hquote hc] at h
    cases hn : nextStr escaped after with
    | error e => rw [hn] at h; cases h
    | ok r =>
      rw [hn] at h
      obtain ⟨e, inner, after⟩ := r
      cases h
      obtain ⟨hfalse, hbody⟩ := ih hn
      exact ⟨hfalse, by simpa [Ne.symm hc] using hbody⟩

lemma parseEscapedFrom_plain (fuel : Nat) (body : List Char) (hfuel : body.length ≤ fuel)
    (h : '\\' ∉ body) : parseEscapedFrom fuel body = .ok body := by
  induction fuel generalizing body with
  | zero =>
    obtain rfl := List.eq_nil_of_length_eq_zero (Nat.le_zero.mp hfuel)
    rfl
  | succ fuel ih =>
    cases body with
    | nil => rfl
    | cons c body =>
      rw [List.mem_cons, not_or] at h
      rw [parseEscapedFrom, ih body (by simpa using hfuel) h.2]
      · rfl
      · exact fun hc => h.1 hc.symm

lemma resolve_eq (l : LitStr) : l.resolve = parseEscaped l.body := by
  unfold LitStr.resolve
  split_ifs with he
  · rfl
  · have hlexed := l.lexed
    rw [Bool.eq_false_iff.mpr he] at hlexed
    exact (parseEscapedFrom_plain _ _ (Nat.le_refl _) (nextStr_plain_body hlexed).2).symm

/-- **What the session decodes.** -/
lemma decode_fragments (l : LitStr) :
    decode (String.ofList l.text) =
      if (fragments l.text).all Fragment.known then some ((fragments l.text).map Fragment.value)
      else none := by
  unfold decode
  rw [String.toList_ofList, String.length_ofList]
  exact decodeFrom_fragments _ _ (Nat.le_refl _)

/-- **What a literal of known escapes denotes.** -/
lemma resolve_fragments (l : LitStr) (hknown : (fragments l.text).all Fragment.known) :
    ((fragments l.text).any Fragment.lax = false ∧ ∃ s, l.resolve = .ok s ∧
        (fragments l.text).map Fragment.value = '"' :: (s ++ ['"'])) ∨
      ((fragments l.text).any Fragment.lax = true ∧ ∃ e, l.resolve = .error e) := by
  have htext : fragments l.text = .plain '"' :: fragments (l.body ++ ['"']) :=
    fragments_cons (.plain (by decide))
  rw [htext, List.all_cons, Bool.and_eq_true] at hknown
  have hbody := fragments_quote l.lexed hknown.2
  have hinner : (fragments l.body).all Fragment.known := by
    rw [hbody, List.all_append, Bool.and_eq_true] at hknown
    exact hknown.2.1
  have hlax : (fragments l.text).any Fragment.lax = (fragments l.body).any Fragment.lax := by
    rw [htext, hbody]
    simp [Fragment.lax]
  rw [hlax, resolve_eq, htext, hbody]
  rcases parseEscapedFrom_fragments _ l.body (Nat.le_refl _) hinner with ⟨h, hok⟩ | ⟨h, herror⟩
  · exact .inl ⟨h, _, hok, by simp [Fragment.value]⟩
  · exact .inr ⟨h, herror⟩

end Host.Evaluation

end Rnx
