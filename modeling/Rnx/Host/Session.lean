import Mathlib.Tactic.Common
import Rnx.Lib.ErrState

/-!
# The persistent session

`session.rs`: each input is compiled into a fresh unit that receives the published bindings it may
reference, runs once, and returns the new bindings.  Declarations are retained as source and
recompiled into every later unit.

Rune's parser, lexer and compiler, the run of the unit, and the allocator are the `World` of one
evaluation: they enter as functions the session calls, and nothing is assumed of what they answer.
Texts are strings and positions in them are byte offsets, as in the source.
-/

namespace Rnx

namespace Host.Evaluation

open Std (TreeMap TreeSet)

/-! ## Failures and their positions -/

/-- `INPUT_CAP`. -/
def inputCap : Nat := 32 * 1024

/-- `InputNumber`. -/
structure InputNumber where
  position : Nat
  olderNumbering : Option Nat
deriving DecidableEq, Repr

/-- `InputNumber::fmt`. -/
def InputNumber.display (n : InputNumber) : String :=
  toString n.position ++
    match n.olderNumbering with
    | some numbering => " of numbering " ++ toString numbering
    | none => ""

/-- `Origin`. -/
structure Origin where
  input : Nat
  number : InputNumber
  line : Nat
  column : Nat
  text : String
deriving DecidableEq, Repr

/-- `Failure`. -/
inductive Failure
  | refused (message : String)
  | compile (message : String) (origin : Option Origin)
  | runtime (message : String) (origin : Option Origin)
  | interrupted
  | budget (n : Nat)
  | overCeiling (live ceiling : Nat)
deriving DecidableEq, Repr

/-- The bytes of a text between two offsets. -/
def slice (text : String) (start stop : Nat) : String :=
  (String.fromUTF8? (text.toUTF8.extract start stop)).getD ""

/-- `char::is_whitespace`. -/
def isWhitespace (c : Char) : Bool :=
  (9 ≤ c.toNat && c.toNat ≤ 13) || c.toNat == 0x20 || c.toNat == 0x85 || c.toNat == 0xa0 ||
    c.toNat == 0x1680 || (0x2000 ≤ c.toNat && c.toNat ≤ 0x200a) || c.toNat == 0x2028 ||
    c.toNat == 0x2029 || c.toNat == 0x202f || c.toNat == 0x205f || c.toNat == 0x3000

/-- `str::trim_start`. -/
def trimStart (text : String) : String := String.ofList (text.toList.dropWhile isWhitespace)

/-- `str::trim_end`. -/
def trimEnd (text : String) : String :=
  String.ofList (text.toList.reverse.dropWhile isWhitespace).reverse

/-- The first of `str::lines`, or the empty text. -/
def firstLine (text : List Char) : List Char :=
  let line := text.takeWhile (· != '\n')
  if line.length < text.length ∧ line.getLast? = some '\r' then line.dropLast else line

/-- `position`: the line and the column of a byte offset, and that line's text. -/
def position (text : String) (offset : Nat) : Nat × Nat × String :=
  let before := (slice text 0 (min offset text.utf8ByteSize)).toList
  let column := (before.reverse.takeWhile (· != '\n')).length
  (before.count '\n' + 1, column + 1,
    String.ofList (firstLine (text.toList.drop (before.length - column))))

/-! ## Parsed inputs -/

/-- `ast::Span`, in bytes. -/
structure Span where
  start : Nat
  stop : Nat
deriving DecidableEq, Repr

/-- `Span::range` into a text. -/
def Span.text (s : Span) (source : String) : String := slice source s.start s.stop

/-- `ast::Pat`.  `path` is an unqualified path of one segment, with its identifier when the segment
is one; every other path is `other`. -/
inductive Pat
  | path (ident : Option Span)
  | tuple (items : List Pat)
  | vec (items : List Pat)
  | object (items : List Pat)
  | binding (pat : Pat)
  | ignore
  | rest
  | lit
  | other

/-- `ast::Item`.  `fields` are the names of a struct with named fields. -/
inductive Item
  | fn (name : Span)
  | const (name : Span)
  | struct (ident : Span) (fields : List Span)
  | enum (name : Span)
  | other
deriving DecidableEq, Repr

/-- `ast::Stmt`. -/
inductive Stmt
  | item (item : Item)
  | «local» (pat : Pat)
  | expr (span : Span)
  | semi
  | other

/-- A statement and the start of its span. -/
structure Statement where
  start : Nat
  stmt : Stmt

/-- `ast::Block`: the statements, and the start of the closing brace. -/
structure Block where
  statements : List Statement
  close : Nat

/-- `ast::Kind`, as far as the scan for mentioned names tells kinds apart. -/
inductive Kind
  | ident
  | str
  | other
deriving DecidableEq, Repr

/-- `ast::Token` and its text. -/
structure Token where
  kind : Kind
  text : String
deriving DecidableEq, Repr

/-! ## Values and outcomes -/

/-- A value as publication looks into it: a tuple, an object with its keys and their values, or a
value that is neither or cannot be read. -/
inductive Value
  | tuple (items : List Value)
  | object (keys : List String) (get : String → Value)
  | other (id : Nat)

/-- `VmError`: its text, the unit and source offset of its location, and the name `method::named`
finds for it in a source. -/
structure VmError where
  message : String
  location : Option (Nat × Option Nat)
  named : String → Option String

/-- `execute::Outcome`. -/
inductive Outcome
  | complete (value : Value)
  | budget
  | interrupted
  | yielded
  | failed (error : VmError) (exhausted : Bool)

/-- Why `Session::compile` has no unit: the source was not accepted, or the build failed, at an
offset when a diagnostic places it. -/
inductive BuildError
  | source (message : String)
  | build (message : String) (offset : Option Nat)
deriving DecidableEq, Repr

/-- The calls of an evaluation that fail only for lack of memory or of a runtime. -/
inductive Site
  | object
  | key (name : String)
  | insert (name : String)
  | state
  | unit
  | runtime
  | runtimeArc
  | begin
deriving DecidableEq, Repr

/-- What surrounds one evaluation: the parser, the lexer, the compiler, which units are alive, what
running a unit comes to, the texts of failures and of refused conversions, and which calls fail. -/
structure World where
  parse : String → Except (String × Nat) Block
  tokens : String → List Token
  compile : String → Except BuildError Nat
  alive : Nat → Bool
  run : Nat → Value → Bool → Outcome
  display : Failure → String
  refusal : Value → String
  fault : Site → Option String

/-! ## The session -/

/-- `Declaration`. -/
structure Declaration where
  isType : Bool
  kind : String
  source : String
  input : Nat
  offset : Nat
  fields : List String
deriving DecidableEq, Repr

/-- `Segment`. -/
structure Segment where
  start : Nat
  stop : Nat
  input : Nat
  offset : Nat
deriving DecidableEq, Repr

/-- `SourceMap::locate`. -/
def locate (segments : List Segment) (generated : Nat) : Option (Nat × Nat) :=
  (segments.find? fun s => s.start ≤ generated ∧ generated < s.stop).map
    fun s => (s.input, s.offset + (generated - s.start))

/-- `Generated`. -/
structure Generated where
  text : String
  map : List Segment

/-- `Generated::new`. -/
def Generated.new : Generated := ⟨"", []⟩

/-- `Generated::raw`. -/
def Generated.raw (g : Generated) (s : String) : Generated := { g with text := g.text ++ s }

/-- `Generated::user`. -/
def Generated.user (g : Generated) (s : String) (input offset : Nat) : Generated :=
  { text := g.text ++ s
    map := g.map ++
      [⟨g.text.utf8ByteSize, g.text.utf8ByteSize + s.utf8ByteSize, input, offset⟩] }

/-- `Retained`: a unit, and the map of the source it was compiled from. -/
structure Retained where
  unit : Nat
  map : List Segment

/-- `Session`, without the context and runtime that only the world of an evaluation uses. -/
structure Session where
  declarations : TreeMap String Declaration
  names : TreeSet String
  state : TreeMap String Value
  inputs : List String
  numberings : List Nat
  units : List Retained
  lastGenerated : String
  ceiling : Nat
  overCeiling : Bool
  budget : Nat

/-- `Session::with_ceiling`, with the instruction budget. -/
def new (ceiling budget : Nat) : Session :=
  { declarations := ∅, names := ∅, state := ∅, inputs := [], numberings := [], units := []
    lastGenerated := "", ceiling := ceiling, overCeiling := false, budget := budget }

/-- `input_number`. -/
def inputNumber (s : Session) (index : Nat) : InputNumber :=
  let epoch := (s.numberings.takeWhile (· < index)).length
  let base := if epoch = 0 then 0 else s.numberings.getD (epoch - 1) 0
  ⟨index - base, if epoch = s.numberings.length then none else some (epoch + 1)⟩

/-- `origin`: line and column of a byte offset in a retained input. -/
def origin (s : Session) (input offset : Nat) : Option Origin :=
  if input = 0 then none
  else (s.inputs[input - 1]?).map fun text =>
    let (line, column, lineText) := position text offset
    ⟨input, inputNumber s input, line, column, lineText⟩

/-- `refused_at`. -/
def refusedAt (s : Session) (message : String) (input offset : Nat) : Failure :=
  match origin s input offset with
  | some o => .refused (message ++ " (input " ++ o.number.display ++ ", line " ++
      toString o.line ++ ", column " ++ toString o.column ++ ")")
  | none => .refused message

/-- `compile_failure`. -/
def compileFailure (s : Session) (message : String) (place : Option (Nat × Nat)) : Failure :=
  .compile message (place.bind fun p => origin s p.1 p.2)

/-- `runtime_failure`. -/
def runtimeFailure (s : Session) (error : VmError) : Failure :=
  let place := do
    let (unit, start) ← error.location
    let map ← (s.units.find? (·.unit == unit)).map (·.map)
    let (input, offset) ← locate map (← start)
    origin s input offset
  let named := do
    let o ← place
    if o.input = 0 then none
    else error.named (← s.inputs[o.input - 1]?)
  .runtime (named.getD error.message) place

end Host.Evaluation

end Rnx
