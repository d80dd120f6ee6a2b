import Mathlib.Tactic.Common

/-!
# JSON values

The dictionaries of the Jupyter messages and the frames of the worker's control channel, as
`serde_json` has them: a field that is missing reads as `null`, and a number is a `u64` or is none of
the numbers the program looks at.  An encoded value has no blanks in it.
-/

namespace Rnx

namespace Jupyter

/-- `serde_json::Value`.  `number` is any number but a `u64`, by its text. -/
inductive Json
  | null
  | bool (b : Bool)
  | nat (n : Nat)
  | number (text : String)
  | str (s : String)
  | arr (items : List Json)
  | obj (fields : List (String × Json))

namespace Json

/-- `value.get(key)`. -/
def get? : Json → String → Option Json
  | obj fields, key => fields.lookup key
  | _, _ => none

/-- `value[key]`. -/
def get (v : Json) (key : String) : Json := (v.get? key).getD null

/-- `is_null`. -/
def isNull : Json → Bool
  | null => true
  | _ => false

/-- `as_bool`. -/
def asBool : Json → Option Bool
  | bool b => some b
  | _ => none

/-- `as_u64`. -/
def asU64 : Json → Option Nat
  | nat n => some n
  | _ => none

/-- `as_str`. -/
def asStr : Json → Option String
  | str s => some s
  | _ => none

/-- `as_object`. -/
def asObject : Json → Option (List (String × Json))
  | obj fields => some fields
  | _ => none

/-- A field of an object is given a value. -/
def set (v : Json) (key : String) (value : Json) : Json :=
  match v with
  | obj fields => obj (fields.filter (·.1 != key) ++ [(key, value)])
  | v => v

@[simp] lemma get_null (key : String) : null.get key = null := rfl

@[simp] lemma get_obj_nil (key : String) : (obj []).get key = null := rfl

lemma get_obj_cons (key k : String) (v : Json) (fields : List (String × Json)) :
    (obj ((k, v) :: fields)).get key = if key = k then v else (obj fields).get key := by
  by_cases h : key = k
  · subst h
    simp [get, get?]
  · simp [get, get?, List.lookup_cons, h, beq_false_of_ne h]

/-! ## Encoding -/

/-- A hexadecimal digit. -/
def hexDigit (n : Nat) : Char :=
  if n < 10 then Char.ofNat (48 + n) else Char.ofNat (87 + n)

/-- A character inside a string: two bytes with a backslash, six for another control character, or
itself. -/
def escapeChar (c : Char) : List Char :=
  if c.val = 0x22 then ['\\', c]
  else if c.val = 0x5c then ['\\', c]
  else if c.val = 0x08 then ['\\', 'b']
  else if c.val = 0x09 then ['\\', 't']
  else if c.val = 0x0a then ['\\', 'n']
  else if c.val = 0x0c then ['\\', 'f']
  else if c.val = 0x0d then ['\\', 'r']
  else if c.val < 0x20 then
    ['\\', 'u', '0', '0', hexDigit (c.val.toNat / 16), hexDigit (c.val.toNat % 16)]
  else [c]

/-- A string between its quotes. -/
def quote (s : String) : String := String.ofList ('\x22' :: s.toList.flatMap escapeChar ++ ['\x22'])

end Json

end Jupyter

end Rnx
