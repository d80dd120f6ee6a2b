import Rnx.Jupyter.Json

/-!
# The worker's control messages

What `Worker::operation` makes of a message of the worker while an operation is outstanding: it is
armed at most once and then settled once, under the identity of the operation, and a settlement is
checked before it is taken.
-/

namespace Rnx

namespace Jupyter

/-- The operation that is outstanding. -/
structure Operation where
  id : Nat
  armed : Option (Nat × Nat)
  reply : Option Json

/-- An operation of which no message has come. -/
def Operation.new (id : Nat) : Operation := ⟨id, none, none⟩

/-- The bound of a rendered result and of a diagnostic. -/
def renderBytes : Nat := 16384

/-- A number that is not zero. -/
def Json.positive (v : Json) (error : String) : Except String Nat :=
  match v.asU64 with
  | some n => if 0 < n then .ok n else .error error
  | none => .error error

/-- The categories of a failure. -/
def categories : List String :=
  ["compile", "runtime", "interrupted", "refused", "budget", "over_ceiling"]

/-- A string of at most `renderBytes` bytes. -/
def Json.isShort (v : Json) : Bool :=
  match v.asStr with
  | some s => decide (s.utf8ByteSize ≤ renderBytes)
  | none => false

/-- The failure of a settlement is none, or has a diagnostic and a category. -/
def Json.isFailure (v : Json) : Bool :=
  v.isNull || (v.get "diagnostic").isShort &&
    match (v.get "category").asStr with
    | some category => categories.contains category
    | none => false

/-- The checks of a settlement. -/
def checkSettled (armed : Option (Nat × Nat)) (value : Json) : Except String Unit := do
  let epoch ← (value.get "epoch").positive "invalid settled epoch"
  if (value.get? "input").isNone || (value.get? "text_plain").isNone ||
      (value.get? "failure").isNone || (value.get "state_lost").asBool.isNone then
    throw "incomplete worker settlement"
  if !((value.get "text_plain").isNull || (value.get "text_plain").isShort) then
    throw "invalid worker rendered result"
  if (value.get "input").asU64.map (epoch, ·) ≠ armed then
    throw "settled input differs from armed identity"
  if !(value.get "failure").isFailure then
    throw "invalid worker failure"

/-- A message of the worker. -/
def Operation.control (op : Operation) (value : Json) : Except String Operation :=
  if (value.get "id").asU64 ≠ some op.id then .error "worker reply identity mismatch"
  else
    match (value.get "type").asStr with
    | some "armed" =>
        if op.armed.isNone && op.reply.isNone then do
          let epoch ← (value.get "epoch").positive "invalid armed epoch"
          let input ← (value.get "input").positive "invalid armed input"
          return { op with armed := some (epoch, input) }
        else .error "unexpected worker control message"
    | some "settled" =>
        if op.reply.isNone then do
          checkSettled op.armed value
          return { op with reply := some value }
        else .error "unexpected worker control message"
    | _ => .error "unexpected worker control message"

end Jupyter

end Rnx
