import Mathlib.Algebra.BigOperators.Group.List.Basic
import Mathlib.Algebra.GroupWithZero.Nat
import Rnx.Lib.Utf8

/-!
# Values of the web helpers

The script values that `web.rs` and `http_server/value.rs` read and build: texts, bytes, integers,
vectors, and objects, which keep their entries in the order of insertion.  `bounded` and `with_bytes`
are shared by the helpers.
-/

namespace Rnx

open Utf8

namespace Web

/-- `BODY`. -/
def bodyMax : Nat := 1 <<< 20

/-- `HEAD`. -/
def headMax : Nat := 16 <<< 10

/-- `HEADERS`. -/
def headersMax : Nat := 64

/-- `PAIRS`. -/
def pairsMax : Nat := 1024

/-- `usize::MAX`. -/
def usizeMax : Nat := 2 ^ 64 - 1

/-- A value of a script. -/
inductive Value
  | string (s : List Char)
  | bytes (b : List UInt8)
  | integer (n : Int)
  | vec (vs : List Value)
  | object (entries : List (String × Value))
  | other

/-- The entries of an object. -/
abbrev Object := List (String × Value)

/-- `ObjectMap::try_insert`: a new key is appended, a present one keeps its place. -/
def put (o : Object) (key : String) (value : Value) : Object :=
  if (o.lookup key).isSome = true then
    o.map fun entry => if entry.1 = key then (key, value) else entry
  else o ++ [(key, value)]

lemma put_of_none {o : Object} {key : String} (h : o.lookup key = none) (value : Value) :
    put o key value = o ++ [(key, value)] := by
  unfold put
  rw [h]
  rfl

/-- The bytes of a string or of bytes. -/
def Value.bytes? : Value → Option (List UInt8)
  | .string s => some (encode s)
  | .bytes b => some b
  | _ => none

/-- `with_bytes`. -/
def withBytes {α : Type} (v : Value) (f : List UInt8 → Except String α) : Except String α :=
  match v.bytes? with
  | some bytes => f bytes
  | none => .error "web: expected String or Bytes"

/-- `bounded`. -/
def bounded (n max : Nat) (field : String) : Except String Unit :=
  if n > max then
    .error ("web: " ++ field ++ " is " ++ toString n ++ " bytes/items, limit " ++ toString max)
  else .ok ()

lemma bounded_ok {n max : Nat} (h : n ≤ max) (field : String) : bounded n max field = .ok () :=
  if_neg (Nat.not_lt.2 h)

lemma bounded_eq_ok {n max : Nat} {field : String} : bounded n max field = .ok () ↔ n ≤ max := by
  unfold bounded
  split_ifs with h
  · simp
    omega
  · simp
    omega

end Web

end Rnx
