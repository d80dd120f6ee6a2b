import Mathlib.Algebra.BigOperators.Group.List.Basic
import Mathlib.Algebra.GroupWithZero.Nat
import Rnx.Lib.ErrState
import Rnx.Jupyter.Control
import Rnx.Jupyter.Capture

/-!
# What the kernel sends

Publications and replies of `kernel.rs`.  A publication reaches every subscriber or fails, which is
up to the transport; a reply goes to the connection its request came from, unless that is closed, and
a reply the transport refuses closes it.  All publications take the `order` lock, and a refusal and
an answer to a kernel-info request keep it throughout, so each of these is one computation here.

The log has what was sent, in the order it was sent, and the turns a request takes.
-/

namespace Rnx

open ErrState

namespace Jupyter.Kernel

/-! ## Messages -/

/-- `Parent`.  Every message that comes in is numbered, and the number stands for the allocation the
jobs share. -/
structure Parent where
  arrival : Nat
  route : Nat
  routing : List Bytes
  header : Bytes
deriving DecidableEq, Repr

/-- The execution states. -/
inductive Status
  | busy
  | idle
deriving DecidableEq, Repr

/-- The types of messages the kernel sends. -/
inductive MsgType
  | status (state : Status)
  | stream
  | error
  | executeInput
  | executeResult
  | executeReply
  | kernelInfoReply
  | interruptReply
  | shutdownReply
deriving DecidableEq, Repr

/-- The name of a type on the wire. -/
def MsgType.name : MsgType → String
  | .status _ => "status"
  | .stream => "stream"
  | .error => "error"
  | .executeInput => "execute_input"
  | .executeResult => "execute_result"
  | .executeReply => "execute_reply"
  | .kernelInfoReply => "kernel_info_reply"
  | .interruptReply => "interrupt_reply"
  | .shutdownReply => "shutdown_reply"

/-- An entry of the log: a message to the subscribers or on a route, or a turn of a request. -/
inductive Entry
  | arrived (parent : Parent) (execute : Bool)
  | iopub (parent : Option Parent) (kind : MsgType) (metadata content : Json)
  | reply (parent : Parent) (kind : MsgType) (metadata content : Json)
  | closed (parent : Parent)
  | unsent (parent : Parent)
  | admitted (parent : Parent)
  | executed (parent : Parent)
  | started (parent : Parent) (store : Bool)
  | aborted (parent : Parent)
  | failed (parent : Parent) (error : String)
  | abandoned (parent : Parent)
  | left (parent : Parent)

/-! ## Output -/

/-- `Output`: the log, the connections that are closed, and the state the kernel is in. -/
structure Output where
  log : List Entry
  closed : List Nat
  idle : Bool

/-- What comes of a publication. -/
abbrev Outcome := Except String Unit

/-- What comes of a reply on a route that is open: it is queued, it does not encode, or the
connection has no room for it. -/
inductive Reply
  | sent
  | unframed (error : String)
  | refused (error : String)
deriving Repr

/-- What comes of the publications and the reply of one refusal, or of one of them. -/
structure Calls where
  busy : Outcome
  shown : Outcome
  reply : Reply
  idle : Outcome

/-- Everything goes well. -/
def Calls.ok : Calls := ⟨.ok (), .ok (), .sent, .ok ()⟩

namespace Output

/-- An entry is appended to the log. -/
def record (entry : Entry) : ErrState String Output Unit :=
  .update fun out => { out with log := out.log ++ [entry] }

/-- `publish_locked`. -/
def publishLocked (o : Outcome) (parent : Option Parent) (kind : MsgType)
    (metadata content : Json) : ErrState String Output Unit := do
  .ofExcept o
  record (.iopub parent kind metadata content)

/-- The content of a status message. -/
def statusContent : Status → Json
  | .busy => .obj [("execution_state", .str "busy")]
  | .idle => .obj [("execution_state", .str "idle")]

/-- A status message, under the lock. -/
def publishStatus (o : Outcome) (parent : Parent) (state : Status) : ErrState String Output Unit :=
  publishLocked o (some parent) (.status state) (.obj []) (statusContent state)

/-- A computation that is left out unless the condition holds. -/
def onlyIf (c : Bool) (m : ErrState String Output Unit) : ErrState String Output Unit :=
  if c = true then m else pure ()

/-- `status`. -/
def status (o : Outcome) (parent : Parent) (state : Status) : ErrState String Output Unit := do
  .update fun out => { out with idle := state = .idle }
  publishStatus o parent state

/-- `Route::reply`. -/
def routeReply (o : Reply) (parent : Parent) (kind : MsgType) (metadata content : Json) :
    ErrState String Output Unit :=
  match o with
  | .sent => record (.reply parent kind metadata content)
  | .unframed error => .fail error
  | .refused error => do
      .update fun out => { out with closed := parent.route :: out.closed }
      .fail error

/-- `reply`. -/
def reply (o : Reply) (parent : Parent) (kind : MsgType) (metadata content : Json) :
    ErrState String Output Unit := do
  let out ← .get
  if parent.route ∈ out.closed then record (.closed parent)
  else routeReply o parent kind metadata content

end Output

/-! ## Contents -/

/-- The lines of a text; `rest` is the line read so far, backwards. -/
def linesFrom : List Char → List Char → List String
  | [], [] => []
  | [], c :: rest => [String.ofList (c :: rest).reverse]
  | c :: cs, rest =>
      if c = '\n' then
        let line := if rest.head? = some '\r' then rest.tail else rest
        String.ofList line.reverse :: linesFrom cs []
      else linesFrom cs (c :: rest)

/-- `str::lines`. -/
def lines (text : String) : List String := linesFrom text.toList []

example : lines "a\r\n\nb" = ["a", "", "b"] := by decide

/-- `error`. -/
def error (name text : String) : Json :=
  .obj [("status", .str "error"), ("ename", .str name), ("evalue", .str text),
    ("traceback", .arr ((lines text).map .str))]

/-- `error_output`. -/
def errorOutput (reply : Json) : Json :=
  .obj [("ename", reply.get "ename"), ("evalue", reply.get "evalue"),
    ("traceback", reply.get "traceback")]

/-- `category`. -/
def category (f : Json) : String :=
  match (f.get "category").asStr with
  | some "compile" => "CompileError"
  | some "runtime" => "RuntimeError"
  | some "interrupted" => "Interrupted"
  | some "budget" => "BudgetExhausted"
  | some "over_ceiling" => "AllocationCeiling"
  | _ => "Refused"

namespace Output

/-- `refusal`. -/
def refusal (o : Calls) (parent : Parent) (silent : Bool) (name text : String) (count : Nat) :
    ErrState String Output Unit := do
  publishStatus o.busy parent .busy
  let failure := (error name text).set "execution_count" (.nat count)
  onlyIf (!silent) (publishLocked o.shown (some parent) .error (.obj []) (errorOutput failure))
  reply o.reply parent .executeReply (.obj []) failure
  publishStatus o.idle parent .idle

/-- `shell_info`, from where it has the lock and the kernel is idle. -/
def shellInfo (o : Calls) (parent : Parent) (content : Json) : ErrState String Output Unit := do
  publishStatus o.busy parent .busy
  reply o.reply parent .kernelInfoReply (.obj []) content
  publishStatus o.idle parent .idle

/-- `control_info`. -/
def controlInfo (o : Calls) (parent : Parent) (content : Json) : ErrState String Output Unit := do
  let out ← .get
  onlyIf out.idle (publishStatus o.busy parent .busy)
  reply o.reply parent .kernelInfoReply (.obj []) content
  onlyIf out.idle (publishStatus o.idle parent .idle)

end Output

/-! ## Requests -/

/-- A request that was authenticated.  `payload` is the bytes of its parts. -/
structure Request where
  routing : List Bytes
  header : Bytes
  kind : String
  content : Json
  payload : Nat

/-- `flag`. -/
def flag (value : Json) (name : String) (default : Bool) : Except String Bool :=
  match value.get? name with
  | none => .ok default
  | some v =>
      match v.asBool with
      | some b => .ok b
      | none => .error (name ++ " must be a boolean")

/-- `Options`. -/
structure Options where
  code : String
  keys : List String
  silent : Bool
  store : Bool
  stop : Bool
  weight : Nat

/-- The keys of `user_expressions`, and the bytes of the reply reserved for them. -/
def expressionKeys : List (String × Json) → Nat → Except String (List String)
  | [], _ => .ok []
  | (key, value) :: rest, response =>
      match value.asStr with
      | none => .error "user_expressions values must be strings"
      | some _ =>
          let response := response + (Json.quote key).utf8ByteSize + 192
          if 1024 * 1024 < response then
            .error "user_expressions reply exceeds the 1 MiB reply budget"
          else (expressionKeys rest response).map (key :: ·)

/-- `options`. -/
def options (request : Request) : Except String Options := do
  let v := request.content
  let code ← match (v.get "code").asStr with
    | some code => .ok code
    | none => .error "code must be a string"
  let silent ← flag v "silent" false
  let store ← flag v "store_history" true
  let stop ← flag v "stop_on_error" true
  let _ ← flag v "allow_stdin" true
  let response := request.header.length + (request.routing.map List.length).sum + 16384
  let keys ← match v.get? "user_expressions" with
    | none => .ok []
    | some expressions =>
        match expressions.asObject with
        | none => .error "user_expressions must be an object"
        | some fields => expressionKeys fields response
  return ⟨code, keys, silent, store && !silent, stop, request.payload⟩

/-! ## The book -/

/-- `Book`: the stored sources, their bytes, and the counts of the worker's inputs. -/
structure Book where
  history : List (Nat × String)
  bytes : Nat
  origins : List ((Nat × Nat) × Option Nat)

/-- The oldest sources leave until one of `size` bytes fits. -/
def Book.evict (size : Nat) : List (Nat × String) → Nat → List (Nat × String) × Nat
  | [], bytes => ([], bytes)
  | old :: rest, bytes =>
      if 10000 ≤ rest.length + 1 ∨ 16 * (1024 * 1024) < bytes + size then
        evict size rest (bytes - old.2.utf8ByteSize)
      else (old :: rest, bytes)

/-- `store`. -/
def Book.store (b : Book) (count : Nat) (source : String) : Book :=
  let (history, bytes) := evict source.utf8ByteSize b.history b.bytes
  { b with
    history := history ++ [(count, source)]
    bytes := bytes + source.utf8ByteSize }

/-- `map`. -/
def Book.map (b : Book) (reply : Json) (count : Option Nat) : Book :=
  match (reply.get "epoch").asU64, (reply.get "input").asU64 with
  | some epoch, some input =>
      let origins := if b.origins.length = 10000 then b.origins.tail else b.origins
      { b with origins := origins ++ [((epoch, input), count)] }
  | _, _ => b

/-- The count an input of the worker was mapped to, if it still is. -/
def Book.lookup (b : Book) (epoch input : Nat) : Option Nat :=
  match b.origins.reverse.find? fun entry => entry.1 == (epoch, input) with
  | some (_, count) => count
  | none => none

/-- `metadata`. -/
def Book.metadata (b : Book) (reply : Json) : Json :=
  let origin := (reply.get "failure").get "origin"
  let count := match (origin.get "epoch").asU64, (origin.get "input").asU64 with
    | some epoch, some input => b.lookup epoch input
    | _, _ => none
  .obj [("rnx", .obj [("worker_generation", .nat 1), ("origin", origin),
    ("notebook_count", (count.map Json.nat).getD .null)])]

end Jupyter.Kernel

end Rnx
