import Mathlib.Algebra.Group.Nat.Defs
import Rnx.Host.Session

/-!
# Evaluating an input

`Session::eval_inner`, from the wrapped input to the merged delta: declarations and statements are
taken from the parsed block, a unit is generated around them and compiled, the bindings the input
may reference are restored, the unit runs once, and what it returns is published.
-/

namespace Rnx

namespace Host.Evaluation

open Std (TreeMap TreeSet)

abbrev M := ErrState Failure Session

/-! ## The names an input mentions -/

/-- `char::to_digit(16)`. -/
def hexDigit (c : Char) : Option Nat :=
  if '0' ≤ c ∧ c ≤ '9' then some (c.toNat - '0'.toNat)
  else if 'a' ≤ c ∧ c ≤ 'f' then some (c.toNat - 'a'.toNat + 10)
  else if 'A' ≤ c ∧ c ≤ 'F' then some (c.toNat - 'A'.toNat + 10)
  else none

/-- `char::from_u32`. -/
def charOf (n : Nat) : Option Char := if h : n.isValidChar then some (Char.ofNatAux n h) else none

/-- The digits of `u{HEX}` up to the closing brace, in `u32`. -/
def hexBraced (value : Nat) : List Char → Option (Nat × List Char)
  | [] => none
  | '}' :: rest => some (value, rest)
  | digit :: rest => do
    let product := value * 16
    if 2 ^ 32 ≤ product then none
    let sum := product + (← hexDigit digit)
    if 2 ^ 32 ≤ sum then none
    hexBraced sum rest

/-- `decode`: each round takes a character or an escape, so the length of the text is enough. -/
def decodeFrom : Nat → List Char → Option (List Char)
  | 0, _ => some []
  | _, [] => some []
  | fuel + 1, '\\' :: 'n' :: rest => (decodeFrom fuel rest).map ('\n' :: ·)
  | fuel + 1, '\\' :: 'r' :: rest => (decodeFrom fuel rest).map ('\r' :: ·)
  | fuel + 1, '\\' :: 't' :: rest => (decodeFrom fuel rest).map ('\t' :: ·)
  | fuel + 1, '\\' :: '0' :: rest => (decodeFrom fuel rest).map (Char.ofNat 0 :: ·)
  | fuel + 1, '\\' :: '\\' :: rest => (decodeFrom fuel rest).map ('\\' :: ·)
  | fuel + 1, '\\' :: '\'' :: rest => (decodeFrom fuel rest).map ('\'' :: ·)
  | fuel + 1, '\\' :: '"' :: rest => (decodeFrom fuel rest).map ('"' :: ·)
  | fuel + 1, '\\' :: 'x' :: high :: low :: rest => do
    let c ← charOf ((← hexDigit high) * 16 + (← hexDigit low))
    (decodeFrom fuel rest).map (c :: ·)
  | fuel + 1, '\\' :: 'u' :: '{' :: rest => do
    let (value, rest) ← hexBraced 0 rest
    let c ← charOf value
    (decodeFrom fuel rest).map (c :: ·)
  | _, '\\' :: _ => none
  | fuel + 1, c :: rest => (decodeFrom fuel rest).map (c :: ·)

lemma decodeFrom_plain {c : Char} (hc : c ≠ '\\') (fuel : Nat) (rest : List Char) :
    decodeFrom (fuel + 1) (c :: rest) = (decodeFrom fuel rest).map (c :: ·) := by
  rw [decodeFrom.eq_def]
  split <;> simp_all

/-- `decode`. -/
def decode (text : String) : Option (List Char) := decodeFrom text.length text.toList

/-- `format_captures`: each round goes past a brace, so the length of the text is enough. -/
def capturesFrom : Nat → List Char → List String
  | 0, _ => []
  | fuel + 1, rest =>
    match rest.dropWhile (· != '{') with
    | [] => []
    | _ :: '{' :: after => capturesFrom fuel after
    | _ :: after =>
      let name := after.takeWhile fun c => c != '}' && c != ':'
      (if name = [] then [] else [String.ofList name]) ++
        match after.drop name.length with
        | [] => []
        | _ :: rest => capturesFrom fuel rest

lemma capturesFrom_nil (fuel : Nat) : capturesFrom fuel [] = [] := by
  cases fuel <;> simp [capturesFrom]

/-- `format_captures`. -/
def formatCaptures (text : List Char) : List String := capturesFrom text.length text

/-- The published ones of some names, added to those found. -/
def findAll (published : TreeSet String) (groups : List String) (found : TreeSet String) :
    TreeSet String :=
  groups.foldl (fun found group =>
    if published.contains group then found.insert group else found) found

/-- The scan of `mentioned` over the tokens of the input. -/
def scan (published : TreeSet String) : List Token → TreeSet String → TreeSet String
  | [], found => found
  | token :: rest, found =>
    match token.kind with
    | .ident => scan published rest (findAll published [token.text] found)
    | .str =>
      match decode token.text with
      -- An escape the decoder does not know: the string could name anything.
      | none => published
      | some text => scan published rest (findAll published (formatCaptures text) found)
    | .other => scan published rest found

/-- `mentioned`. -/
def mentioned (tokens : List Token) (published : TreeSet String) : TreeSet String :=
  if published.isEmpty then ∅ else scan published tokens ∅

/-! ## Declarations and statements -/

/-- `valid_name`. -/
def validName (name : String) : Except Failure Unit :=
  if name = "main" ∨ "__rnx_".toList <+: name.toList then
    .error (.refused ("\x60" ++ name ++ "\x60 is reserved by the session"))
  else .ok ()

mutual

/-- `bindings`. -/
def bindings (source : String) : Pat → TreeSet String → Except Failure (TreeSet String)
  | .path (some ident), names => do
    validName (ident.text source)
    .ok (names.insert (ident.text source))
  | .path none, _ => .error (.refused "unsupported binding path")
  | .tuple items, names | .vec items, names | .object items, names =>
    bindingsAll source items names
  | .binding pat, names => bindings source pat names
  | .ignore, names | .rest, names | .lit, names => .ok names
  | .other, _ => .error (.refused "unsupported binding pattern")

/-- `bindings` of the items of a pattern. -/
def bindingsAll (source : String) : List Pat → TreeSet String → Except Failure (TreeSet String)
  | [], names => .ok names
  | pat :: rest, names => do bindingsAll source rest (← bindings source pat names)

end

/-- What `eval_inner` takes from the statements of the block. -/
structure Parts where
  declarations : TreeMap String Declaration
  names : TreeSet String
  statements : List (String × Nat)
  result : String × Nat
  resultIsUser : Bool

/-- Name, whether a type, kind and fields of a declaration the session accepts. -/
def Item.declared (source : String) : Item → Option (String × Bool × String × List String)
  | .fn name => some (name.text source, false, "function", [])
  | .const name => some (name.text source, false, "const", [])
  | .struct ident fields => some (ident.text source, true, "struct", fields.map (·.text source))
  | .enum name => some (name.text source, true, "enum", [])
  | .other => none

/-- A declaration of the block; `text` is the source of its statement. -/
def declare (s : Session) (number : Nat) (wrapped : String) (start : Nat) (text : String)
    (item : Item) (p : Parts) : Except Failure Parts :=
  match item.declared wrapped with
  | none => .error (refusedAt s ("a session accepts fn, const, struct, and enum declarations; " ++
      "modules, imports, macro declarations, and impl blocks work in files") number (start - 1))
  | some (name, isType, kind, fields) => do
    validName name
    let source := trimStart (trimEnd text)
    let leading := text.utf8ByteSize - (trimStart text).utf8ByteSize
    let clash := match p.declarations[name]? with
      | some old => (old.isType || isType) && old.source != source
      | none => false
    if clash then
      .error (refusedAt s ("\x60" ++ name ++
        "\x60 is a type whose shape changed; :reset before redeclaring it") number (start - 1))
    else
      .ok { p with
        declarations := p.declarations.insert name
          ⟨isType, kind, source, number, start + leading - 1, fields⟩ }

/-- One statement of the block, from `start` to `stop` of the wrapped input. -/
def takeStatement (s : Session) (number : Nat) (wrapped : String) (start stop : Nat) (last : Bool)
    (stmt : Stmt) (p : Parts) : Except Failure Parts :=
  let text := slice wrapped start stop
  match stmt with
  | .item item => declare s number wrapped start text item p
  | .local pat => do
    let names ← bindings wrapped pat p.names
    .ok { p with names := names, statements := p.statements ++ [(text, start - 1)] }
  | .expr span =>
    if last then .ok { p with result := (span.text wrapped, span.start - 1), resultIsUser := true }
    else .ok { p with statements := p.statements ++ [(text ++ ";", start - 1)] }
  | .semi => .ok { p with statements := p.statements ++ [(text, start - 1)] }
  | .other => .error (refusedAt s "unsupported statement" number (start - 1))

/-- The statements of the block in order, each reaching to the start of the next. -/
def takeStatements (s : Session) (number : Nat) (wrapped : String) (close : Nat) :
    List Statement → Parts → Except Failure Parts
  | [], p => .ok p
  | statement :: rest, p => do
    let stop := match rest with
      | next :: _ => next.start
      | [] => close
    takeStatements s number wrapped close rest
      (← takeStatement s number wrapped statement.start stop rest.isEmpty statement.stmt p)

/-! ## The generated unit -/

/-- The names of the delta: those restored, and those the input declared. -/
def deltaNames (s : Session) (referenced names : TreeSet String) : TreeSet String :=
  (names.toList.filter fun name => ! s.names.contains name).foldl (·.insert ·) referenced

/-- `build`: the wrapper of an input, synchronous or not. -/
def build (number : Nat) (p : Parts) (referenced delta : TreeSet String) (awaits : Bool) :
    Generated :=
  let g := p.declarations.toList.foldl (fun g d =>
    (g.user d.2.source d.2.input d.2.offset).raw "\n") Generated.new
  let g := g.raw (if awaits then "pub async fn main(__rnx_state) \x7b\n"
    else "pub fn main(__rnx_state) \x7b\n")
  let g := referenced.toList.foldl (fun g name =>
    g.raw ("let " ++ name ++ " = __rnx_state[\"" ++ name ++ "\"];\n")) g
  let g := p.statements.foldl (fun g t => (g.user t.1 number t.2).raw "\n") g
  let g := g.raw "let __rnx_result = ("
  let g := if p.resultIsUser then g.user p.result.1 number p.result.2 else g.raw p.result.1
  ((g.raw ");\n(#\x7b").raw (",".intercalate delta.toList)).raw "\x7d, __rnx_result)\n\x7d"

/-- `Session::compile`. -/
def compile (w : World) (s : Session) (g : Generated) : Except Failure Nat :=
  match w.compile g.text with
  | .ok unit => .ok unit
  | .error (.source message) => .error (.refused message)
  | .error (.build message none) => .error (.compile message none)
  | .error (.build message (some offset)) =>
    .error (.compile message ((locate g.map offset).bind fun p => origin s p.1 p.2))

/-- The two compile attempts: the generated source to run, whether it awaits, and its unit. -/
def compileEither (w : World) (build : Bool → Generated) : M (Generated × Bool × Nat) := do
  let s ← ErrState.get
  match compile w s (build false) with
  | .ok unit => pure (build false, false, unit)
  | .error refused =>
    match compile w s (build true) with
    | .ok unit => pure (build true, true, unit)
    | .error again =>
      let (failure, text) :=
        if w.display again = w.display refused then (refused, (build false).text)
        else (again, (build true).text)
      ErrState.update fun s => { s with lastGenerated := text }
      ErrState.fail failure

/-- `restored`: the object an input receives. -/
def restored (w : World) (s : Session) (referenced : TreeSet String) : Except Failure Value :=
  let fault (site : Site) : Except Failure Unit :=
    match w.fault site with
    | some message => .error (.refused message)
    | none => .ok ()
  let held := referenced.toList.filter fun name => s.state.contains name
  do
    fault .object
    held.forM fun name => do
      fault (.key name)
      fault (.insert name)
    fault .state
    .ok (.object held fun name => s.state.getD name (.other 0))

/-- `execute`. -/
def execute (w : World) (s : Session) (unit : Nat) (state : Value) (awaits : Bool) :
    Except Failure Value :=
  match w.fault .runtime, w.fault .runtimeArc, w.fault .begin with
  | some message, _, _ => .error (.refused message)
  | none, some message, _ => .error (.refused message)
  | none, none, some message => .error (.runtime message none)
  | none, none, none =>
    match w.run unit state awaits with
    | .complete value => .ok value
    | .interrupted => .error .interrupted
    | .budget => .error (.budget s.budget)
    | .yielded => .error (.runtime "unexpected yield" none)
    | .failed error exhausted =>
      match runtimeFailure s error with
      | .runtime message origin =>
        .error (.runtime (if exhausted then message ++ "; the budget of " ++
          toString s.budget ++ " instructions was exhausted at that point" else message) origin)
      | failure => .error failure

/-! ## Publication -/

/-- An input whose unit has run: what it declared and named, and what the unit returned. -/
structure Prepared where
  parts : Parts
  output : Value

/-- The wrapper around an input that is parsed. -/
def wrap (input : String) : String := "\x7b" ++ input ++ "\n\x7d"

/-- `eval_inner` up to the value its unit returns. -/
def prepare (w : World) (input : String) (number : Nat) : M Prepared := do
  let s ← ErrState.get
  let block ← ErrState.ofExcept <| (w.parse (wrap input)).mapError fun e =>
    compileFailure s e.1 (some (number, e.2 - 1))
  let parts ← ErrState.ofExcept <| takeStatements s number (wrap input) block.close
    block.statements ⟨s.declarations, s.names, [], ("()", 0), false⟩
  let referenced := mentioned (w.tokens input) s.names
  let state ← ErrState.ofExcept (restored w s referenced)
  let (generated, awaits, unit) ← compileEither w
    (build number parts referenced (deltaNames s referenced parts.names))
  ErrState.update fun s => { s with lastGenerated := generated.text }
  match w.fault .unit with
  | some message => ErrState.fail (.refused message)
  | none =>
    ErrState.update fun s =>
      { s with units := s.units.filter (fun r => w.alive r.unit) ++ [⟨unit, generated.map⟩] }
    let s ← ErrState.get
    let output ← ErrState.ofExcept (execute w s unit state awaits)
    pure ⟨parts, output⟩

/-- `rune::from_value::<(Value, Value)>`. -/
def asPair (w : World) : Value → Except Failure (Value × Value)
  | .tuple [delta, value] => .ok (delta, value)
  | value => .error (.runtime (w.refusal value) none)

/-- `borrow_ref::<Object>`: the keys of the object and their values. -/
def asObject (w : World) : Value → Except Failure (List String × (String → Value))
  | .object keys get => .ok (keys, get)
  | value => .error (.runtime (w.refusal value) none)

/-- The writing half of `merge`. -/
def insertAll (keys : List String) (get : String → Value) (state : TreeMap String Value) :
    TreeMap String Value :=
  keys.foldl (fun state name => state.insert name (get name)) state

/-- `merge`. -/
def merge (w : World) (delta : Value) : M Unit := do
  let (keys, get) ← ErrState.ofExcept (asObject w delta)
  ErrState.update fun s => { s with state := insertAll keys get s.state }

/-- `eval_inner` from the value its unit returns on. -/
def publish (w : World) (p : Prepared) : M Value := do
  let (delta, value) ← ErrState.ofExcept (asPair w p.output)
  merge w delta
  ErrState.update fun s =>
    { s with declarations := p.parts.declarations, names := p.parts.names }
  pure value

/-- `eval_inner`. -/
def evalInner (w : World) (input : String) (number : Nat) : M Value := do
  publish w (← prepare w input number)

/-! ## The inputs of a session -/

/-- Whether `eval_input` goes on to evaluate the input. -/
def admits (s : Session) (input : String) : Bool :=
  ! s.overCeiling && decide (input.utf8ByteSize ≤ inputCap)

/-- `eval_input` retains the text of an admitted input. -/
def admitted (s : Session) (input : String) : Session := { s with inputs := s.inputs ++ [input] }

/-- `eval_input`; `live` is the memory sample a refusal quotes. -/
def evalInput (w : World) (live : Nat) (input : String) : M Value := fun s =>
  if s.overCeiling then (.error (.overCeiling live s.ceiling), s)
  else if inputCap < input.utf8ByteSize then
    (.error (.refused ("input exceeds " ++ toString inputCap ++ " bytes")), s)
  else evalInner w input (admitted s input).inputs.length (admitted s input)

/-- `reset_fallible`. -/
def reset (s : Session) : Session :=
  { s with
    declarations := ∅, names := ∅, state := ∅, inputs := [], numberings := [], units := []
    lastGenerated := "", overCeiling := false }

/-- `renumber`. -/
def renumber (s : Session) : Session := { s with numberings := s.numberings ++ [s.inputs.length] }

/-- `next_number`. -/
def nextNumber (s : Session) : Nat := s.inputs.length - s.numberings.getLast?.getD 0 + 1

/-- `sample`. -/
def sample (live : Option Nat) (s : Session) : Session :=
  match live with
  | some live => if s.ceiling ≤ live then { s with overCeiling := true } else s
  | none => s

/-- `set_budget`. -/
def setBudget (budget : Nat) (s : Session) : Session := { s with budget := budget }

end Host.Evaluation

end Rnx
