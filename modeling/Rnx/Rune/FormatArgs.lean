import Mathlib.Algebra.Group.Nat.Defs
import Mathlib.Tactic.Common

/-!
# The expansion of a format string

`macros/format_args.rs`: a format string and the arguments it is given become literals and
formatted values.  The value of an argument is the tokens it was written as, which stay abstract,
and what evaluates one of them to a precision is a function of the macro context.  Positions count
the characters of the format string, spans are left out, and an error is its message.
-/

namespace Rnx

namespace Rune

open Std (TreeMap TreeSet)

/-! ## Parts of a specification -/

/-- `format::Alignment`. -/
inductive Alignment
  | left
  | center
  | right
deriving DecidableEq, Repr

/-- `format::Type`. -/
inductive FormatType
  | display
  | debug
  | upperHex
  | lowerHex
  | binary
  | pointer
deriving DecidableEq, Repr

/-- `format::Flag`. -/
inductive Flag
  | signPlus
  | signMinus
  | alternate
  | signAwareZeroPad
deriving DecidableEq, Repr

/-- `flag as u32`. -/
def Flag.bit : Flag → Nat
  | .signPlus => 0
  | .signMinus => 1
  | .alternate => 2
  | .signAwareZeroPad => 3

/-- `Flags::set`. -/
def setFlag (flags : Nat) (flag : Flag) : Nat := flags ||| 1 <<< flag.bit

/-- `FormatArg`, without its span. -/
structure FormatArg (V : Type) where
  name : Option String
  value : V

/-- `ExprOrIdent`. -/
inductive ExprOrIdent (V : Type)
  | expr (value : V)
  | ident (name : String)
deriving DecidableEq, Repr

/-- `C::Format`. -/
structure Formatted (V : Type) where
  expr : ExprOrIdent V
  fill : Option Char
  align : Option Alignment
  width : Option Nat
  precision : Option Nat
  flags : Nat
  formatType : Option FormatType
deriving DecidableEq, Repr

/-- `C`. -/
inductive Component (V : Type)
  | literal (text : List Char)
  | format (formatted : Formatted V)
deriving DecidableEq, Repr

/-- `MacroContext`: whether the execution core collects the macro, and the argument evaluated as a
`usize`. -/
structure MacroContext (V : Type) where
  collecting : Bool
  asUsize : V → Except String Nat

/-! ## Numbers -/

/-- `MAX_FORMAT_ARGUMENT`. -/
def maxFormatArgument : Nat := 2 ^ 16 - 1

/-- `str::parse::<usize>`. -/
def parseUsize (text : List Char) : Option Nat :=
  let digits : List Char := match text with
    | '+' :: rest => rest
    | text => text
  let n := digits.foldl (fun n c => n * 10 + (c.toNat - '0'.toNat)) 0
  if digits ≠ [] ∧ digits.all Char.isDigit ∧ n < 2 ^ 64 then some n else none

/-- `bound_format_argument`. -/
def boundFormatArgument (what : String) (n : Nat) : Except String Nat :=
  if maxFormatArgument < n then
    .error (what ++ " " ++ toString n ++ " is larger than the maximum of " ++
      toString maxFormatArgument)
  else .ok n

/-- `parse_format_argument`. -/
def parseFormatArgument (what : String) (digits : List Char) : Except String Nat :=
  match parseUsize digits with
  | none => .error (what ++ " " ++ String.ofList digits ++ " is larger than the maximum of " ++
      toString maxFormatArgument)
  | some n => boundFormatArgument what n

/-- The digits of a width or a precision, where any were written. -/
def writtenArgument (what : String) (digits : List Char) : Except String (Option Nat) :=
  if digits = [] then .ok none
  else (parseFormatArgument what digits).map some

/-! ## One group -/

/-- `Mode`. -/
inductive Mode
  | start
  | fillAllign
  | sign
  | alternate
  | signAwareZeroPad
  | width
  | precision
  | type
  | «end»
deriving DecidableEq, Repr

/-- The place of a mode among the modes, which are gone through in this order. -/
def Mode.index : Mode → Nat
  | .start => 0
  | .fillAllign => 1
  | .sign => 2
  | .alternate => 3
  | .signAwareZeroPad => 4
  | .width => 5
  | .precision => 6
  | .type => 7
  | .end => 8

/-- What `parse_group` has read of a group. -/
structure Group where
  mode : Mode
  name : List Char
  width : List Char
  precision : List Char
  flags : Nat
  fill : Option Char
  align : Option Alignment
  inputPrecision : Bool
  formatType : Option FormatType
deriving DecidableEq, Repr

/-- The group before its first character. -/
def Group.new : Group := ⟨.start, [], [], [], 0, none, none, false, none⟩

/-- The characters that align. -/
def isAlign (c : Char) : Bool := c == '<' || c == '^' || c == '>'

/-- `parse_align`. -/
def parseAlign (c : Char) : Alignment :=
  if c = '<' then .left else if c = '^' then .center else .right

/-- The characters that name a type. -/
def typeOf : Char → Option FormatType
  | '?' => some .debug
  | 'x' => some .lowerHex
  | 'X' => some .upperHex
  | 'b' => some .binary
  | 'p' => some .pointer
  | _ => none

/-- A round of `parse_group` before its last mode, at the character `a` with `b` behind it: the
group after it, and how many characters it took. -/
def Group.turn (g : Group) (a b : Char) : Group × Nat :=
  match g.mode with
  | .start =>
    if a = ':' then ({ g with mode := .fillAllign }, 1)
    else if a = '}' then ({ g with mode := .end }, 0)
    else ({ g with name := g.name ++ [a] }, 1)
  | .fillAllign =>
    if isAlign a then ({ g with align := some (parseAlign a), mode := .sign }, 1)
    else if isAlign b then
      ({ g with fill := some a, align := some (parseAlign b), mode := .sign }, 2)
    else ({ g with mode := .sign }, 0)
  | .sign =>
    if a = '-' then ({ g with flags := setFlag g.flags .signMinus, mode := .alternate }, 1)
    else if a = '+' then ({ g with flags := setFlag g.flags .signPlus, mode := .alternate }, 1)
    else ({ g with mode := .alternate }, 0)
  | .alternate =>
    if a = '#' then
      ({ g with flags := setFlag g.flags .alternate, mode := .signAwareZeroPad }, 1)
    else ({ g with mode := .signAwareZeroPad }, 0)
  | .signAwareZeroPad =>
    if a = '0' then ({ g with flags := setFlag g.flags .signAwareZeroPad, mode := .width }, 1)
    else ({ g with mode := .width }, 0)
  | .width =>
    if a.isDigit then ({ g with width := g.width ++ [a] }, 1)
    else if a = '.' then ({ g with mode := .precision }, 1)
    else ({ g with mode := .type }, 0)
  | .precision =>
    if a = '*' ∧ g.precision = [] then ({ g with inputPrecision := true, mode := .type }, 1)
    else if a.isDigit then ({ g with precision := g.precision ++ [a] }, 1)
    else ({ g with mode := .type }, 0)
  | .type =>
    match typeOf a with
    | some t => ({ g with formatType := some t, mode := .end }, 1)
    | none => ({ g with mode := .end }, 0)
  | .end => (g, 0)

/-- A round takes a character or goes on to a later mode. -/
lemma Group.turn_progress (g : Group) (h : g.mode ≠ .end) (a b : Char) :
    0 < (g.turn a b).2 ∨ ((g.turn a b).2 = 0 ∧ g.mode.index < (g.turn a b).1.mode.index) := by
  obtain ⟨mode, name, width, precision, flags, fill, align, inputPrecision, formatType⟩ := g
  cases mode with
  | «end» => exact absurd rfl h
  | type => simp only [turn]; split <;> simp [Mode.index]
  | _ => simp only [turn]; split_ifs <;> simp [Mode.index]

lemma Mode.index_le (m : Mode) : m.index ≤ 8 := by cases m <;> decide

/-- The loop of `parse_group`: the group read, and what follows it. -/
def parseSpec (g : Group) : List Char → Except String (Group × List Char)
  | [] => .error "unexpected end of format string"
  | a :: rest =>
    if _ : g.mode = .end then
      if a = '}' then .ok (g, rest)
      else .error ("unsupported char \x60" ++ String.ofList [a] ++ "\x60 in spec")
    else
      parseSpec (g.turn a (rest.headD (Char.ofNat 0))).1
        ((a :: rest).drop (g.turn a (rest.headD (Char.ofNat 0))).2)
termination_by l => (l.length, 8 - g.mode.index)
decreasing_by
  rcases g.turn_progress ‹_› a (rest.headD (Char.ofNat 0)) with htaken | ⟨htaken, hmode⟩
  · apply Prod.Lex.left
    rw [List.length_drop, List.length_cons]
    omega
  · have := Mode.index_le (g.turn a (rest.headD (Char.ofNat 0))).1.mode
    rw [htaken, List.drop_zero]
    apply Prod.Lex.right
    omega

/-- The count of positional arguments, and the arguments not yet used. -/
structure Usage where
  count : Nat
  unusedPos : TreeSet Nat
  unusedNamed : TreeSet String

/-- The next positional argument of `pos`. -/
def Usage.next {V : Type} (u : Usage) (pos : List V) (required : String) :
    Except String (V × Usage) :=
  match pos[u.count]? with
  | none => .error ("missing positional argument #" ++ toString u.count ++ required)
  | some arg => .ok (arg, { u with count := u.count + 1, unusedPos := u.unusedPos.erase u.count })

/-- The precision of a group. -/
def groupPrecision {V : Type} (cx : MacroContext V) (pos : List V) (g : Group) (u : Usage) :
    Except String (Option Nat × Usage) :=
  if g.inputPrecision then do
    let (arg, u) ← u.next pos " which is required for position parameter"
    if cx.collecting then .error "execution core: dynamic precision is not admitted"
    else do
      let precision ← cx.asUsize arg
      let precision ← boundFormatArgument "precision" precision
      .ok (some precision, u)
  else do
    let precision ← writtenArgument "precision" g.precision
    .ok (precision, u)

/-- The value a group formats. -/
def groupExpr {V : Type} (pos : List V) (named : TreeMap String V) (g : Group) (u : Usage) :
    Except String (ExprOrIdent V × Usage) :=
  if g.name = [] then do
    let (arg, u) ← u.next pos ""
    .ok (.expr arg, u)
  else match parseUsize g.name with
    | some n =>
      match pos[n]? with
      | none => .error ("missing positional argument #" ++ toString n)
      | some arg => .ok (.expr arg, { u with unusedPos := u.unusedPos.erase n })
    | none =>
      match named[String.ofList g.name]? with
      | some arg =>
        .ok (.expr arg, { u with unusedNamed := u.unusedNamed.erase (String.ofList g.name) })
      | none => .ok (.ident (String.ofList g.name), u)

/-- `parse_group`, past the opening brace. -/
def parseGroup {V : Type} (cx : MacroContext V) (pos : List V) (named : TreeMap String V)
    (u : Usage) (input : List Char) : Except String (Formatted V × Usage × List Char) := do
  let (g, rest) ← parseSpec Group.new input
  let (precision, u) ← groupPrecision cx pos g u
  let (expr, u) ← groupExpr pos named g u
  let width ← writtenArgument "width" g.width
  .ok (⟨expr, g.fill, g.align, width, precision, g.flags, g.formatType⟩, u, rest)

/-! ## A format string -/

/-- What `expand_format_spec` has expanded: the components, the literal that grows, and where the
plain text to be added to it started. -/
structure Expansion (V : Type) where
  components : List (Component V)
  buf : List Char
  start : Option Nat
  usage : Usage

/-- The plain text up to a position joins the literal. -/
def Expansion.cut {V : Type} (e : Expansion V) (input : List Char) (place : Nat) : Expansion V :=
  match e.start with
  | some start => { e with buf := e.buf ++ (input.take place).drop start, start := none }
  | none => e

/-- The literal becomes a component, unless it is empty. -/
def Expansion.flush {V : Type} (e : Expansion V) : Expansion V :=
  if e.buf = [] then e
  else { e with components := e.components ++ [.literal e.buf], buf := [] }

/-- The loop of `expand_format_spec`: each round takes a character, so the length of the input is
enough. -/
def expandFrom {V : Type} (cx : MacroContext V) (input : List Char) (pos : List V)
    (named : TreeMap String V) : Nat → List Char → Expansion V → Except String (Expansion V)
  | 0, _, e => .ok e
  | _, [], e => .ok e
  | fuel + 1, a :: rest, e =>
    let place := input.length - (rest.length + 1)
    let b := rest.headD (Char.ofNat 0)
    if a = '}' ∧ b = '}' then
      let e := e.cut input place
      expandFrom cx input pos named fuel rest.tail { e with buf := e.buf ++ ['}'] }
    else if a = '{' ∧ b = '{' then
      let e := e.cut input place
      expandFrom cx input pos named fuel rest.tail { e with buf := e.buf ++ ['{'] }
    else if a = '}' then
      .error "unsupported close \x60\x7d\x60, if you meant to escape this use \x60\x7d\x7d\x60"
    else if a = '{' then do
      let e := (e.cut input place).flush
      let (formatted, usage, rest) ← parseGroup cx pos named e.usage rest
      expandFrom cx input pos named fuel rest
        { e with components := e.components ++ [.format formatted], usage := usage }
    else
      expandFrom cx input pos named fuel rest { e with start := some (e.start.getD place) }

/-- `expand_format_spec`: the components of the template, and the arguments left unused. -/
def expandFormatSpec {V : Type} (cx : MacroContext V) (input : List Char) (pos : List V)
    (named : TreeMap String V) (u : Usage) : Except String (List (Component V) × Usage) := do
  let e ← expandFrom cx input pos named input.length input ⟨[], [], some 0, u⟩
  let e := (e.cut input input.length).flush
  .ok (e.components, e.usage)

/-- The positional and the named arguments. -/
def separate {V : Type} : List (FormatArg V) → List V → TreeMap String V →
    Except String (List V × TreeMap String V)
  | [], pos, named => .ok (pos, named)
  | a :: rest, pos, named =>
    match a.name with
    | none =>
      if named.isEmpty then separate rest (pos ++ [a.value]) named
      else .error "unnamed positional arguments must come before named ones"
    | some name => separate rest pos (named.insert name a.value)

/-- `FormatArgs::expand_inner`, of a format string that is resolved. -/
def expandInner {V : Type} (cx : MacroContext V) (format : List Char)
    (args : List (FormatArg V)) : Except String (List (Component V)) := do
  let (pos, named) ← separate args [] ∅
  let (components, u) ← expandFormatSpec cx format pos named
    ⟨0, TreeSet.ofList (List.range pos.length), TreeSet.ofList named.keys⟩
  if ! u.unusedPos.isEmpty then .error "unused positional argument"
  else match u.unusedNamed.min? with
    | some key => .error ("unused named argument \x60" ++ key ++ "\x60")
    | none => .ok components

/-! ## Implicit captures -/

/-- The identifier that a component captures from around the macro. -/
def Component.implicit {V : Type} : Component V → Option String
  | .format ⟨.ident name, _, _, _, _, _, _⟩ => some name
  | _ => none

/-- The identifiers that an expansion captures from around the macro. -/
def implicits {V : Type} (components : List (Component V)) : List String :=
  components.filterMap Component.implicit

end Rune

end Rnx
