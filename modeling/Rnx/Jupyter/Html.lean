import Rnx.Jupyter.Control

/-!
# The optional HTML form of a result

The allowlist of `html.rs`, of which the worker has a copy, and the data of an `execute_result`: HTML
stands beside the text and never alone, and a form that is not allowed is dropped.
-/

namespace Rnx

namespace Jupyter.Html

/-- `TAGS`. -/
def tags : List String := ["div", "small", "table", "thead", "tbody", "tr", "th", "td"]

/-- `ENTITIES`. -/
def entities : List String := ["&amp;", "&lt;", "&gt;", "&quot;", "&#39;"]

/-- `DEPTH`. -/
def depth : Nat := 8

/-- `char::is_control`. -/
def isControl (c : Char) : Bool := c.val < 0x20 || 0x7f ≤ c.val && c.val < 0xa0

/-- The line and paragraph separators and the marks that change the direction of the text. -/
def isBidi (c : Char) : Bool :=
  c.val = 0x2028 || c.val = 0x2029 || 0x202a ≤ c.val && c.val ≤ 0x202e ||
    0x2066 ≤ c.val && c.val ≤ 0x2069

/-- The tags open after one more tag, `inner` being what is between its brackets. -/
def tag (inner : List Char) (stack : List String) : Option (List String) :=
  match inner with
  | '/' :: name =>
      let name := String.ofList name
      if name ∈ tags ∧ stack.head? = some name then some stack.tail else none
  | name =>
      let name := String.ofList name
      if name ∈ tags ∧ stack.length ≠ depth then some (name :: stack) else none

/-- The loop over the text that is left, each turn of which takes a character at least. -/
def allowedFrom : Nat → List Char → List String → Bool
  | _, [], stack => stack.isEmpty
  | 0, _, _ => false
  | turns + 1, c :: rest, stack =>
      if c = '<' then
        if '>' ∈ rest then
          match tag (rest.takeWhile (· ≠ '>')) stack with
          | some stack => allowedFrom turns (rest.dropWhile (· ≠ '>')).tail stack
          | none => false
        else false
      else if c = '>' then false
      else if c = '&' then
        match entities.find? (·.toList.isPrefixOf (c :: rest)) with
        | some entity => allowedFrom turns ((c :: rest).drop entity.length) stack
        | none => false
      else if isControl c && c ≠ '\n' || isBidi c then false
      else allowedFrom turns rest stack

/-- `allowed`. -/
def allowed (html : String) : Bool :=
  decide (html.utf8ByteSize ≤ renderBytes) && allowedFrom html.length html.toList []

example : allowed "<div>a &lt; b</div>" = true := by decide +kernel

/-- `result_data`. -/
def resultData (reply : Json) : Option Json :=
  match (reply.get "text_plain").asStr with
  | none => none
  | some text =>
      let data := Json.obj [("text/plain", .str text)]
      match (reply.get "text_html").asStr with
      | some html => if allowed html = true then some (data.set "text/html" (.str html)) else some data
      | none => some data

end Jupyter.Html

end Rnx
