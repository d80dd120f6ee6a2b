import Rnx.Web.Values

/-!
# Responses

`response` of `web.rs`, which a script calls to build a response, and `Output::decode` of
`http_server/value.rs`, which takes a response from a handler.  Both count the headers and their
bytes, each for itself and while they read the headers, and both leave the grammar of names and
values to the functions `header_name` and `header_value`.

The names and values of headers are those of the library of HTTP: `Library` has what the code uses
of it, and `Documented` what it relies on.
-/

namespace Rnx

open Utf8

namespace Web

/-- What the code uses of the libraries: the name a key stands for, as a text; whether bytes are a
header's value; and the quoted form of a text. -/
structure Library where
  headerName : List UInt8 → Option String
  headerValue : List UInt8 → Bool
  debug : String → String

/-- The length of a text in bytes. -/
def len (key : String) : Nat := (encode key.toList).length

/-- `to_ascii_lowercase`. -/
def lower (key : String) : String := String.ofList (key.toList.map Char.toLower)

/-- A byte of a header's value: a tab, or a printable one. -/
def ValueByte (b : UInt8) : Prop := b = 9 ∨ (32 ≤ b ∧ b ≠ 127)

instance (b : UInt8) : Decidable (ValueByte b) := inferInstanceAs (Decidable (_ ∨ _))

-- The bytes of the list are tried, not every byte.
instance (bytes : List UInt8) : Decidable (∀ b ∈ bytes, ValueByte b) :=
  List.decidableBAll ValueByte bytes

/-- The documentation of the library: a name is the key in lower case and a name itself,
`content-type` is one, and the bytes of a value are tabs and printable. -/
structure Library.Documented (lib : Library) : Prop where
  lower : ∀ (key name : String), lib.headerName (encode key.toList) = some name → name = Web.lower key
  normal : ∀ (key name : String), lib.headerName (encode key.toList) = some name →
    lib.headerName (encode name.toList) = some name
  contentType : lib.headerName (encode "content-type".toList) = some "content-type"
  value : ∀ bytes : List UInt8, (∀ b ∈ bytes, ValueByte b) → lib.headerValue bytes = true

/-! ## Rules -/

/-- `status`. -/
def status (status : Int) (bodyLen : Nat) : Except String Unit := do
  if ¬(200 ≤ status ∧ status ≤ 599) then .error "response status wants 200 to 599"
  else
    bounded bodyLen bodyMax "response body"
    if (status = 204 ∨ status = 304) ∧ bodyLen ≠ 0 then
      .error "response status forbids a body"
    else .ok ()

/-- The names that belong to the transport. -/
def reserved : List String :=
  ["content-length", "transfer-encoding", "connection", "keep-alive", "upgrade", "trailer", "te",
    "proxy-connection"]

/-- `header_name`. -/
def headerName (lib : Library) (key : String) : Except String String :=
  match lib.headerName (encode key.toList) with
  | none => .error "invalid response header name"
  | some name =>
      if name ∈ reserved then .error "response header reserved for the transport" else .ok name

/-- `header_value`. -/
def headerValue (bytes : List UInt8) : Except String Unit :=
  if ∀ b ∈ bytes, ValueByte b then .ok () else .error "invalid response header value"

/-! ## The constructor -/

/-- `copy_payload`. -/
def copyPayload : Value → Except String Value
  | .string s => .ok (.string s)
  | .bytes b => .ok (.bytes b)
  | _ => .error "web: expected String or Bytes"

/-- `char::is_control`. -/
def isControl (c : Char) : Bool := c.toNat < 32 || (127 ≤ c.toNat && c.toNat < 160)

/-- `\u{..}`. -/
def controlEscape (c : Char) : List Char :=
  "\\u\x7b".toList ++ Nat.toDigits 16 c.toNat ++ "\x7d".toList

/-- `terminal_safe_into`: what is shown within a budget, and the bytes it shows. -/
def terminalSafe (budget : Nat) : List Char → List Char × Nat
  | [] => ([], 0)
  | c :: text =>
      let piece := if c ≠ '\n' ∧ isControl c = true then controlEscape c else [c]
      if (encode piece).length > budget then ([], 0)
      else
        let (out, consumed) := terminalSafe (budget - (encode piece).length) text
        (piece ++ out, (encode [c]).length + consumed)

/-- `header_error`. -/
def headerError (lib : Library) (key : String) (index : Option Nat) (error : String) : String :=
  let (shown, consumed) := terminalSafe 64 key.toList
  let shown := if consumed < len key then shown ++ ['…'] else shown
  let field := match index with
    | none => ""
    | some i => " value " ++ toString i
  "web::response header " ++ lib.debug (String.ofList shown) ++ field ++ ": " ++ error

/-- What `response` counts: the values, their bytes, and the values of one name. -/
structure Tally where
  count : Nat
  total : Nat
  index : Nat
deriving DecidableEq, Repr

/-- The closure of `response` that visits the value of a name. -/
def visit (key : String) (t : Tally) (bytes : List UInt8) : Except String Tally := do
  bounded (t.count + 1) headersMax "response header values"
  let total := t.total + len key + bytes.length + 4
  if total ≤ usizeMax then
    bounded total headMax "response headers"
    headerValue bytes
    .ok ⟨t.count + 1, total, t.index + 1⟩
  else .error "web: response header length overflow"

/-- The visits of values; an error has the index of its value. -/
def visitAll (key : String) (t : Tally) : List Value → Except (String × Nat) Tally
  | [] => .ok t
  | v :: vs =>
      match withBytes v (visit key t) with
      | .error error => .error (error, t.index)
      | .ok t => visitAll key t vs

/-- `values`. -/
def values (key : String) (t : Tally) (v : Value) : Except (String × Nat) Tally :=
  match v with
  | .string _ => visitAll key t [v]
  | .bytes _ => visitAll key t [v]
  | .vec vs =>
      match bounded vs.length headersMax "response header values" with
      | .error error => .error (error, t.index)
      | .ok () => visitAll key t vs
  | _ => .error ("web: header values want String, Bytes or a vector", t.index)

/-- The loop of `response` over the headers it was given. -/
def checkHeaders (lib : Library) (names : List String) (count total : Nat) :
    Object → Except String Unit
  | [] => .ok ()
  | (key, v) :: rest =>
      match bounded (len key) (headMax - total) "response header name" with
      | .error error => .error (headerError lib key none error)
      | .ok () =>
          match headerName lib key with
          | .error error => .error (headerError lib key none error)
          | .ok name =>
              if name = "content-type" ∨ name ∈ names then
                .error (headerError lib key none "duplicate name (including content-type)")
              else
                match values key ⟨count, total, 0⟩ v with
                | .error (error, index) => .error (headerError lib key (some index) error)
                | .ok t => checkHeaders lib (names ++ [name]) t.count t.total rest

/-- The copies of the values of a name. -/
def copyValues : Value → Except String (List Value)
  | .string s => .ok [.string s]
  | .bytes b => .ok [.bytes b]
  | .vec vs => vs.mapM copyPayload
  | _ => .error "expected a vector"

/-- The loop of `response` that copies the headers. -/
def copyHeaders (out : Object) : Object → Except String Object
  | [] => .ok out
  | (key, v) :: rest => do
      let list ← copyValues v
      copyHeaders (put out (lower key) (.vec list)) rest

/-- `response`. -/
def response (lib : Library) (statusCode : Int) (body : Value) (contentType : List Char)
    (extra : Value) : Except String Value := do
  withBytes body fun b => status statusCode b.length
  bounded (encode contentType).length (headMax - 64) "response content type"
  match headerValue (encode contentType) with
  | .error error => .error ("web::response content_type: " ++ error)
  | .ok () =>
      match extra with
      | .object headers =>
          bounded (headers.length + 1) headersMax "response header names"
          let total := 64 + len "content-type" + (encode contentType).length + 4
          bounded total headMax "response headers"
          checkHeaders lib [] 1 total headers
          let outHeaders ← copyHeaders (put [] "content-type" (.vec [.string contentType])) headers
          let payload ← copyPayload body
          .ok (.object (put (put (put [] "status" (.integer statusCode))
            "headers" (.object outHeaders)) "body" payload))
      | _ => .error "web: response headers want an object"

/-! ## The host -/

/-- `Output`. -/
structure Output where
  status : Nat
  headers : List (String × List UInt8)
  body : List UInt8
deriving DecidableEq, Repr

/-- `bytes`. -/
def bytes (v : Value) (limit : Nat) : Except String (List UInt8) :=
  match v.bytes? with
  | some b =>
      if b.length > limit then .error "response value exceeds its byte limit" else .ok b
  | none => .error "response wants a string or bytes"

/-- The loop of `Output::decode` over the values of a name. -/
def decodeValues (lib : Library) (key name : String) (total : Nat)
    (headers : List (String × List UInt8)) :
    List Value → Except String (Nat × List (String × List UInt8))
  | [] => .ok (total, headers)
  | v :: vs => do
      let b ← bytes v (headMax - total)
      let total := total + len key + b.length + 4
      if total > headMax then .error "response headers exceed 16 KiB"
      else
        headerValue b
        if lib.headerValue b = true then
          decodeValues lib key name total (headers ++ [(name, b)]) vs
        else .error "invalid response header value"

/-- The loop of `Output::decode` over the headers. -/
def decodeHeaders (lib : Library) (total : Nat) (headers : List (String × List UInt8)) :
    Object → Except String (List (String × List UInt8))
  | [] => .ok headers
  | (key, vs) :: rest => do
      if len key > headMax - total then .error "response headers exceed 16 KiB"
      else
        let name ← headerName lib key
        match vs with
        | .vec vs =>
            if vs.length > headersMax - headers.length then
              .error "too many response header values"
            else
              let (total, headers) ← decodeValues lib key name total headers vs
              decodeHeaders lib total headers rest
        | _ => .error "response header values want a vector"

/-- `Output::decode`. -/
def decodeOutput (lib : Library) (v : Value) : Except String Output :=
  match v with
  | .object o =>
      match o.length, o.lookup "status", o.lookup "headers", o.lookup "body" with
      | 3, some statusCode, some headers, some body =>
          match statusCode with
          | .integer code => do
              status code 0
              let body ← bytes body bodyMax
              status code body.length
              match headers with
              | .object h =>
                  if h.length > headersMax then .error "too many response header names"
                  else
                    let headers ← decodeHeaders lib 64 [] h
                    .ok ⟨code.toNat % 2 ^ 16, headers, body⟩
              | _ => .error "response headers want an object"
          | _ => .error "response status wants an integer"
      | _, _, _, _ => .error "response wants exactly status, headers, body"
  | _ => .error "response wants an object"

end Web

end Rnx
