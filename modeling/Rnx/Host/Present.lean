import Rnx.Lib.Markup
import Rnx.Web.Response

/-!
# Presented results

`present.rs`: the bounded writer of a presenter, the final text of a top-level result, and the
allowlist of its optional HTML form.  Lengths are those of bytes.
-/

namespace Rnx

namespace Host.Present

open Utf8 Web

/-! ## The bounded writer -/

/-- `OMITTED`. -/
def omitted : List Char := "\n[presentation byte limit; remainder omitted]\n".toList

/-- `SHORT`. -/
def short : List Char := ['…']

/-- `marker_for`. -/
def markerFor (limit : Nat) : List Char :=
  if (encode omitted).length ≤ limit then omitted
  else if (encode short).length ≤ limit then short
  else []

/-- `Output`. -/
structure Output where
  text : List Char
  limit : Nat
  marker : List Char
  truncated : Bool

/-- `Output::new`. -/
def Output.new (limit : Nat) : Output := ⟨[], limit, markerFor limit, false⟩

/-- `Output::push`, with what it answers. -/
def Output.push (token : List Char) (out : Output) : Bool × Output :=
  if out.truncated = true then (false, out)
  else if out.limit - (encode out.marker).length - (encode out.text).length <
      (encode token).length then
    (false, { out with truncated := true, text := out.text ++ out.marker })
  else (true, { out with text := out.text ++ token })

/-! ## The final text -/

/-- The text before a reason. -/
def beforeReason : List Char := " (preview unavailable: ".toList

/-- `finish`. -/
def finish (outcome : Except (List Char) (List Char)) (label : List Char) (budget : Nat) :
    List Char :=
  match outcome with
  | .ok text =>
      let marker := markerFor budget
      let (out, consumed) := terminalSafe (budget - (encode marker).length) text
      if consumed < (encode text).length then out ++ marker else out
  | .error error =>
      let (out, _) := terminalSafe budget label
      let fixed := (encode beforeReason).length + (encode [')']).length
      if (encode out).length + fixed ≤ budget then
        let out := out ++ beforeReason
        let room := budget - (encode out).length - (encode [')']).length
        let marker := markerFor room
        let (reason, consumed) := terminalSafe (room - (encode marker).length) error
        let out := out ++ reason
        let out := if consumed < (encode error).length then out ++ marker else out
        out ++ [')']
      else out

/-! ## The allowlist of HTML -/

/-- `HTML_BYTES`. -/
def htmlBytes : Nat := 16384

/-- The line and paragraph separators and the marks that change the direction of the text. -/
def isSeparator (c : Char) : Bool :=
  c.toNat = 0x2028 || c.toNat = 0x2029 || (0x202a ≤ c.toNat && c.toNat ≤ 0x202e) ||
    (0x2066 ≤ c.toNat && c.toNat ≤ 0x2069)

/-- What `html_allowed` reads: `TAGS`, `ENTITIES`, `DEPTH` and the characters it refuses. -/
def html : Markup where
  tags := ["div", "small", "table", "thead", "tbody", "tr", "th", "td"]
  entities := ["&amp;", "&lt;", "&gt;", "&quot;", "&#39;"]
  depth := 8
  refused c := (isControl c && c ≠ '\n') || isSeparator c
  tag_name := by decide
  entity_start := by decide
  entity_unique := by decide

/-- `html_allowed`. -/
def htmlAllowed (text : List Char) : Bool :=
  decide ((encode text).length ≤ htmlBytes) && html.scan text []

end Host.Present

end Rnx
