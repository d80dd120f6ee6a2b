import Mathlib.Tactic.Common
import Rnx.Lib.Champion

/-!
# Route tables

`http_server/routes.rs`: the table a program's `routes()` returns is decoded once at startup, and
every request is matched against it.

Rune's tokenizer and the compiled functions of the program are the `Program`; nothing is assumed of
what they answer.
-/

namespace Rnx

namespace Http

open Std (TreeMap TreeSet)

/-- `MAX_ROUTES`. -/
def maxRoutes : Nat := 256

/-- `MAX_TEXT`. -/
def maxText : Nat := 64 * 1024

/-- `HOOKS`. -/
def hookNames : List String := ["not_found", "method_not_allowed", "bad_request"]

/-- What the table is checked against: `identifier`, and `Program::http_function`, the arity of a
compiled function. -/
structure Program where
  identifier : String → Bool
  httpFunction : String → Except String (Option Nat)

/-- The values a row may be made of.  A value that cannot be borrowed is `other`. -/
inductive Value
  | vector (items : List Value)
  | tuple (items : List Value)
  | string (text : String)
  | other

/-- `Segment`. -/
inductive Segment
  | literal (text : String)
  | param (name : String)
deriving DecidableEq, Repr

/-- `Entry`. -/
structure Entry where
  method : String
  pattern : String
  handler : String
  segments : List Segment
deriving DecidableEq, Repr

/-- `Routes`. -/
structure Routes where
  entries : List Entry
  hooks : List (Option String)

/-- `Selection`. -/
structure Selection where
  handler : Option String
  params : TreeMap String String
  status : Option Nat
  allow : Option String

/-! ## Texts -/

/-- `str::split` at a character. -/
def split (sep : Char) : List Char → List (List Char)
  | [] => [[]]
  | c :: text => if c = sep then [] :: split sep text else (split sep text).modifyHead (c :: ·)

/-- `str::split` at `::`. -/
def splitPath : List Char → List (List Char)
  | ':' :: ':' :: text => [] :: splitPath text
  | c :: text => (splitPath text).modifyHead (c :: ·)
  | [] => [[]]

/-- `handler_name`. -/
def handlerName (p : Program) (s : String) : Bool :=
  !s.isEmpty && (splitPath s.toList).all fun item => p.identifier (String.ofList item)

/-- The hexadecimal digit a byte is. -/
def hexDigit (b : UInt8) : Option UInt8 :=
  if 48 ≤ b ∧ b ≤ 57 then some (b - 48)
  else if 65 ≤ b ∧ b ≤ 70 then some (b - 55)
  else if 97 ≤ b ∧ b ≤ 102 then some (b - 87)
  else none

/-- The loop of `percent`, from a byte on; nothing at a malformed escape. -/
def unescape : List UInt8 → Option (List UInt8)
  | [] => some []
  | b :: rest =>
      if b = 37 then
        match rest with
        | hi :: lo :: rest => do
            let hi ← hexDigit hi
            let lo ← hexDigit lo
            let out ← unescape rest
            some ((hi * 16 + lo) :: out)
        | _ => none
      else do
        let out ← unescape rest
        some (b :: out)

/-- `percent`. -/
def percent (s : String) : Except String String :=
  match unescape (s.toList.flatMap String.utf8EncodeChar) with
  | none => .error "parameter has a malformed percent escape"
  | some out =>
      match String.fromUTF8? ⟨out.toArray⟩ with
      | none => .error "parameter is not UTF-8"
      | some text => .ok text

/-! ## Patterns -/

/-- The characters of a pattern. -/
def patternChar (c : Char) : Bool :=
  32 < c.toNat && c.toNat < 127 && c != '?' && c != '#' && c != '\\'

/-- The characters of a literal segment. -/
def literalChar (c : Char) : Bool := c.isAlphanum || "-._~!$&'()+,;=:@%".toList.contains c

/-- A hexadecimal digit. -/
def isHexDigit (c : Char) : Bool :=
  c.isDigit || ('A' ≤ c && c ≤ 'F') || ('a' ≤ c && c ≤ 'f')

/-- The loop over the escapes of a literal segment. -/
def escapesWell : List Char → Bool
  | [] => true
  | c :: text =>
      if c = '%' then
        match text with
        | hi :: lo :: text => isHexDigit hi && isHexDigit lo && escapesWell text
        | _ => false
      else escapesWell text

/-- A literal segment. -/
def literal (text : List Char) : Except String Segment :=
  if text.any fun c => c = '{' ∨ c = '}' ∨ c = '*' then
    .error "pattern has partial braces or a wildcard"
  else if ¬text.all literalChar then .error "literal has an invalid URI path character"
  else if ¬escapesWell text then .error "literal has a malformed percent escape"
  else .ok (.literal (String.ofList text))

/-- The loop of `pattern` over the parts, with the parameter names so far. -/
def patternParts (p : Program) : List (List Char) → TreeSet String → Except String (List Segment)
  | [], _ => .ok []
  | part :: parts, names =>
      if part.head? = some '{' ∧ part.getLast? = some '}' then
        let name := String.ofList part.tail.dropLast
        if 64 < name.utf8ByteSize ∨ ¬p.identifier name ∨ names.contains name then
          .error "parameter names want distinct Rune identifiers of at most 64 bytes"
        else
          let names := names.insert name
          if 16 < names.size then .error "pattern exceeds 16 parameters"
          else do
            let out ← patternParts p parts names
            .ok (.param name :: out)
      else do
        let segment ← literal part
        let out ← patternParts p parts names
        .ok (segment :: out)

/-- `pattern`. -/
def pattern (p : Program) (s : String) : Except String (List Segment) :=
  if s.toList.head? ≠ some '/' ∨ ¬s.toList.all patternChar then
    .error ("pattern wants an absolute ASCII URI path without query, fragment, whitespace or " ++
      "backslash")
  else
    let parts := split '/' s.toList.tail
    if 64 < parts.length then .error "pattern exceeds 64 segments"
    else patternParts p parts ∅

/-- The segments of `same_shape` that agree. -/
def alike : Segment → Segment → Bool
  | .literal a, .literal b => a = b
  | .param _, .param _ => true
  | _, _ => false

/-- `same_shape`. -/
def sameShape (a b : List Segment) : Bool :=
  a.length = b.length && (a.zip b).all fun s => alike s.1 s.2

/-- `more_specific`. -/
def moreSpecific : List Segment → List Segment → Bool
  | .literal _ :: _, .param _ :: _ => true
  | .param _ :: _, .literal _ :: _ => false
  | _ :: a, _ :: b => moreSpecific a b
  | _, _ => false

/-! ## Decoding -/

/-- `borrowed_string`. -/
def borrowedString (v : Value) (max : Nat) : Except String String :=
  match v with
  | .string s =>
      if max < s.utf8ByteSize then
        .error s!"route string has {s.utf8ByteSize} bytes, limit {max}"
      else .ok s
  | _ => .error "route slots want strings"

/-- The characters of a method. -/
def methodChar (c : Char) : Bool :=
  c.isUpper || c.isDigit || "!#$%&'*+-.^_`|~".toList.contains c

/-- The check of a row against the rows before it. -/
def conflict (old : Entry) (method path : String) (segments : List Segment) : Except String Unit :=
  if sameShape old.segments segments then
    if old.pattern ≠ path then .error "same-shape parameter renamings conflict"
    else if old.method = method then .error "duplicate method/pattern"
    else .ok ()
  else .ok ()

/-- The checks of a row against all rows before it. -/
def conflicts (method path : String) (segments : List Segment) : List Entry → Except String Unit
  | [] => .ok ()
  | old :: entries => do
      conflict old method path segments
      conflicts method path segments entries

/-- The closure that decodes a row: its entry, and the text so far. -/
def decodeRow (p : Program) (entries : List Entry) (text : Nat) (row : Value) :
    Except String (Entry × Nat) :=
  match row with
  | .tuple [method, path, handler] => do
      let method ← borrowedString method 32
      let path ← borrowedString path 1024
      let handler ← borrowedString handler 256
      if method.isEmpty ∨ ¬method.toList.all methodChar then
        .error "method wants an uppercase HTTP token"
      else if ¬handlerName p handler then .error "handler wants a Rune item path"
      else if hookNames.contains handler then
        .error "error-hook names are reserved as route handlers"
      else
        -- The sums stay far below the range of `usize`.
        let newText := text + (method.utf8ByteSize + path.utf8ByteSize + handler.utf8ByteSize) +
          path.utf8ByteSize
        if maxText < newText then .error "route text exceeds 64 KiB"
        else do
          let segments ← pattern p path
          conflicts method path segments entries
          let function ← p.httpFunction handler
          if function ≠ some 1 then
            .error s!"handler {handler} wants a compiled one-argument Rune function"
          else .ok (⟨method, path, handler, segments⟩, newText)
  | .tuple _ => .error "route row wants exactly method, pattern, handler"
  | _ => .error "route row wants a tuple"

/-- The loop over the rows. -/
def decodeRows (p : Program) : List Value → List Entry → Nat → Except String (List Entry)
  | [], entries, _ => .ok entries
  | row :: rows, entries, text =>
      match decodeRow p entries text row with
      | .error e => .error s!"route row {entries.length + 1}: {e}"
      | .ok (entry, text) => decodeRows p rows (entries ++ [entry]) text

/-- The hooks a program has. -/
def decodeHooks (p : Program) : List String → Except String (List (Option String))
  | [] => .ok []
  | name :: names => do
      let hook ← p.httpFunction name
      match hook with
      | none => do
          let hooks ← decodeHooks p names
          .ok (none :: hooks)
      | some 1 => do
          let hooks ← decodeHooks p names
          .ok (some name :: hooks)
      | some _ => .error s!"hook {name} wants one argument"

/-- `Routes::decode`. -/
def decode (p : Program) (value : Value) : Except String Routes :=
  match value with
  | .vector rows =>
      if maxRoutes < rows.length then
        .error s!"routes() has {rows.length} rows, limit {maxRoutes}"
      else do
        let entries ← decodeRows p rows [] 0
        let hooks ← decodeHooks p hookNames
        .ok ⟨entries, hooks⟩
  | _ => .error "routes() wants a vector"

/-! ## Selection -/

/-- The path of a request as the parts a pattern is matched with. -/
def pathParts (path : String) : List String :=
  (split '/' (if path.toList.head? = some '/' then path.toList.tail else path.toList)).map
    String.ofList

/-- A segment matches a part. -/
def Segment.fits : Segment → String → Bool
  | .literal text, part => text = part
  | .param _, part => !part.isEmpty

/-- A row matches a path. -/
def Entry.fits (e : Entry) (parts : List String) : Bool :=
  e.segments.length = parts.length && (e.segments.zip parts).all fun s => s.1.fits s.2

/-- The loop over the parameters. -/
def bindParams : List (Segment × String) → TreeMap String String →
    Except String (TreeMap String String)
  | [], params => .ok params
  | (.literal _, _) :: rest, params => bindParams rest params
  | (.param name, part) :: rest, params => do
      let value ← percent part
      bindParams rest (params.insert name value)

/-- The order of the methods of an answer that is not allowed. -/
def knownMethods : List String :=
  ["GET", "HEAD", "POST", "PUT", "PATCH", "DELETE", "OPTIONS", "CONNECT", "TRACE"]

/-- The loop that takes the known methods out of a set. -/
def takeKnown : List String → TreeSet String → List String × TreeSet String
  | [], methods => ([], methods)
  | m :: known, methods =>
      if methods.contains m then
        let rest := takeKnown known (methods.erase m)
        (m :: rest.1, rest.2)
      else takeKnown known methods

/-- The methods of the rows of a group, in the order they are listed. -/
def allowed (group : List Entry) : List String :=
  let methods : TreeSet String := group.foldl (fun s e => s.insert e.method) ∅
  let methods := if methods.contains "GET" then methods.insert "HEAD" else methods
  let ordered := takeKnown knownMethods methods
  ordered.1 ++ ordered.2.toList

namespace Routes

/-- `Routes::error`. -/
def error (r : Routes) (i status : Nat) (allow : Option String) : Selection :=
  ⟨(r.hooks[i]?).join, ∅, some status, allow⟩

/-- The row of a method in a group, a `GET` row standing in for a missing `HEAD` row. -/
def methodRow (method : String) (group : List Entry) : Option Entry :=
  (group.find? fun e => e.method = method).or
    (if method = "HEAD" then group.find? fun e => e.method = "GET" else none)

/-- `Routes::select`. -/
def select (r : Routes) (method path : String) : Selection :=
  if 65 < (split '/' path.toList).length then r.error 0 404 none
  else
    let parts := pathParts path
    let best := Champion.champion (fun a b => moreSpecific a.segments b.segments)
      (r.entries.filter fun e => e.fits parts)
    match best with
    | none => r.error 0 404 none
    | some best =>
        match bindParams (best.segments.zip parts) ∅ with
        | .error _ => r.error 2 400 none
        | .ok params =>
            let group := r.entries.filter fun e => e.pattern = best.pattern
            match methodRow method group with
            | some e => ⟨some e.handler, params, none, none⟩
            | none => r.error 1 405 (some (", ".intercalate (allowed group)))

end Routes

end Http

end Rnx
