import Mathlib.Algebra.Group.Nat.Defs
import Mathlib.Tactic.Common

/-!
# String literals of the language

`Lexer::next_str`, which decides where a string literal ends, and `LitStr::resolve_string`, which
decides the string it stands for, with the escapes of `ast/unescape.rs`.  Texts are lists of
characters, and spans are left out: an error is its kind.
-/

namespace Rnx

namespace Rune

/-! ## The extent of a literal -/

/-- The errors of `Lexer::next_str`. -/
inductive LexError
  | unterminatedStrLit
  | expectedEscape
deriving DecidableEq, Repr

/-- `Lexer::next_str`, past the opening quote: whether an escape was seen, the text up to the
closing quote, and what follows it. -/
def nextStr (escaped : Bool) : List Char → Except LexError (Bool × List Char × List Char)
  | [] => .error .unterminatedStrLit
  | '"' :: rest => .ok (escaped, [], rest)
  | ['\\'] => .error .expectedEscape
  | '\\' :: c :: rest => do
    let (escaped, body, rest) ← nextStr true rest
    .ok (escaped, '\\' :: c :: body, rest)
  | c :: rest => do
    let (escaped, body, rest) ← nextStr escaped rest
    .ok (escaped, c :: body, rest)

/-- A string literal as the lexer delimits it: its closing quote is the one that ends it. -/
structure LitStr where
  body : List Char
  escaped : Bool
  lexed : nextStr false (body ++ ['"']) = .ok (escaped, body, [])

/-- The text of the token, with its quotes. -/
def LitStr.text (l : LitStr) : List Char := '"' :: (l.body ++ ['"'])

/-! ## The string of a literal -/

/-- `unescape::ErrorKind`, for characters. -/
inductive ErrorKind
  | badEscapeSequence
  | badUnicodeEscape
  | badHexEscapeChar
  | badByteEscape
deriving DecidableEq, Repr

/-- The value of a hexadecimal digit. -/
def digit16 (c : Char) : Option Nat :=
  if '0' ≤ c ∧ c ≤ '9' then some (c.toNat - '0'.toNat)
  else if 'a' ≤ c ∧ c ≤ 'f' then some (c.toNat - 'a'.toNat + 10)
  else if 'A' ≤ c ∧ c ≤ 'F' then some (c.toNat - 'A'.toNat + 10)
  else none

/-- `char::from_u32`. -/
def fromU32 (n : Nat) : Option Char := if h : n.isValidChar then some (Char.ofNatAux n h) else none

/-- `char::is_whitespace`. -/
def isWhitespace (c : Char) : Bool :=
  (9 ≤ c.toNat && c.toNat ≤ 13) || c.toNat == 0x20 || c.toNat == 0x85 || c.toNat == 0xa0 ||
    c.toNat == 0x1680 || (0x2000 ≤ c.toNat && c.toNat ≤ 0x200a) || c.toNat == 0x2028 ||
    c.toNat == 0x2029 || c.toNat == 0x202f || c.toNat == 0x205f || c.toNat == 0x3000

/-- `result.checked_shl(4)`, of a `u32`: bits shifted out are lost, and the shift never fails. -/
def shl4 (result : Nat) : Nat := result * 16 % 2 ^ 32

/-- `parse_hex_escape`, with `left` digits to go. -/
def parseHexEscape (result : Nat) : Nat → List Char → Except ErrorKind (Nat × List Char)
  | 0, rest => .ok (result, rest)
  | _ + 1, [] => .error .badByteEscape
  | left + 1, c :: rest =>
    match digit16 c with
    | none => .error .badByteEscape
    | some d => parseHexEscape (shl4 result + d) left rest

/-- The loop of `parse_unicode_escape`. -/
def parseUnicodeDigits (first : Bool) (result : Nat) :
    List Char → Except ErrorKind (Char × List Char)
  | [] => .error .badUnicodeEscape
  | '}' :: rest =>
    if first then .error .badUnicodeEscape
    else match fromU32 result with
      | some c => .ok (c, rest)
      | none => .error .badUnicodeEscape
  | c :: rest =>
    match digit16 c with
    | none => .error .badUnicodeEscape
    | some d => parseUnicodeDigits false (shl4 result + d) rest

/-- `parse_unicode_escape`. -/
def parseUnicodeEscape : List Char → Except ErrorKind (Char × List Char)
  | '{' :: rest => parseUnicodeDigits true 0 rest
  | _ => .error .badUnicodeEscape

/-- The characters that stand for one character after a backslash. -/
def simpleEscape : Char → Option Char
  | '\'' => some '\''
  | '"' => some '"'
  | 'n' => some '\n'
  | 'r' => some '\r'
  | 't' => some '\t'
  | '\\' => some '\\'
  | '0' => some (Char.ofNat 0)
  | _ => none

/-- `parse_char_escape` past the backslash, without template escapes and with line continuations:
the character, or none for a continuation, and what follows. -/
def parseCharEscape : List Char → Except ErrorKind (Option Char × List Char)
  | [] => .error .badEscapeSequence
  | 'x' :: rest => do
    let (result, rest) ← parseHexEscape 0 2 rest
    if 0x7f < result then .error .badHexEscapeChar
    else match fromU32 result with
      | some c => .ok (some c, rest)
      | none => .error .badByteEscape
  | 'u' :: rest => do
    let (c, rest) ← parseUnicodeEscape rest
    .ok (some c, rest)
  | c :: rest =>
    if c = '\n' ∨ c = '\r' then .ok (none, rest.dropWhile isWhitespace)
    else match simpleEscape c with
      | some c => .ok (some c, rest)
      | none => .error .badEscapeSequence

/-- `LitStr::parse_escaped`: each round takes a character, so the length of the source is enough. -/
def parseEscapedFrom : Nat → List Char → Except ErrorKind (List Char)
  | 0, _ => .ok []
  | _, [] => .ok []
  | fuel + 1, '\\' :: rest => do
    let (c, rest) ← parseCharEscape rest
    let buffer ← parseEscapedFrom fuel rest
    .ok (c.toList ++ buffer)
  | fuel + 1, c :: rest => do
    let buffer ← parseEscapedFrom fuel rest
    .ok (c :: buffer)

/-- `LitStr::parse_escaped`. -/
def parseEscaped (source : List Char) : Except ErrorKind (List Char) :=
  parseEscapedFrom source.length source

/-- `LitStr::resolve_string` of a literal of a source text. -/
def LitStr.resolve (l : LitStr) : Except ErrorKind (List Char) :=
  if l.escaped then parseEscaped l.body else .ok l.body

/-! ## What the lexer delimits -/

lemma nextStr_plain {c : Char} (hquote : c ≠ '"') (hslash : c ≠ '\\') (escaped : Bool)
    (rest : List Char) :
    nextStr escaped (c :: rest) =
      (nextStr escaped rest).map fun r => (r.1, c :: r.2.1, r.2.2) := by
  rw [nextStr]
  · cases nextStr escaped rest <;> rfl
  · exact hquote
  · exact fun h => absurd h hslash
  · exact fun _ _ h => absurd h hslash

lemma nextStr_escape (c : Char) (escaped : Bool) (rest : List Char) :
    nextStr escaped ('\\' :: c :: rest) =
      (nextStr true rest).map fun r => (r.1, '\\' :: c :: r.2.1, r.2.2) := by
  rw [nextStr]
  cases nextStr true rest <;> rfl

/-- What the lexer delimits, it delimits alike wherever the text goes on. -/
lemma nextStr_split {escaped e : Bool} {input body rest : List Char}
    (h : nextStr escaped input = .ok (e, body, rest)) :
    input = body ++ '"' :: rest ∧ nextStr escaped (body ++ ['"']) = .ok (e, body, []) := by
  induction escaped, input using nextStr.induct generalizing e body rest with
  | case1 escaped => cases h
  | case2 escaped after =>
    cases h
    exact ⟨rfl, rfl⟩
  | case3 escaped => cases h
  | case4 escaped c after ih =>
    rw [nextStr_escape] at h
    cases hn : nextStr true after with
    | error e => rw [hn] at h; cases h
    | ok r =>
      rw [hn] at h
      cases h
      obtain ⟨hsplit, hb⟩ := ih hn
      refine ⟨by rw [hsplit]; rfl, ?_⟩
      rw [List.cons_append, List.cons_append, nextStr_escape, hb]
      rfl
  | case5 escaped c after hquote hlone hslash ih =>
    have hc : c ≠ '\\' := by
      rintro rfl
      cases after with
      | nil => exact hlone rfl rfl
      | cons d after => exact hslash d after rfl rfl
    rw [nextStr_plain hquote hc] at h
    cases hn : nextStr escaped after with
    | error e => rw [hn] at h; cases h
    | ok r =>
      rw [hn] at h
      cases h
      obtain ⟨hsplit, hb⟩ := ih hn
      refine ⟨by rw [hsplit]; rfl, ?_⟩
      rw [List.cons_append, nextStr_plain hquote hc, hb]
      rfl

/-- The literal the lexer finds at the front of a text. -/
def LitStr.ofInput {input body rest : List Char} {e : Bool}
    (h : nextStr false input = .ok (e, body, rest)) : LitStr :=
  ⟨body, e, (nextStr_split h).2⟩

end Rune

end Rnx
