import Mathlib.Algebra.BigOperators.Group.List.Basic
import Mathlib.Algebra.GroupWithZero.Nat
import Rnx.Jupyter.Html
import Rnx.Jupyter.Output
import Rnx.Lib.Transition

/-!
# The notebook kernel

`kernel.rs`: handlers of the connections admit execute requests to a queue or refuse them, and one
loop takes a job at a time, has the worker execute it and delivers its settlement.  A settlement that
failed aborts the queue when its job says so.  A shutdown request ends admission and interrupts the
loop; a failure of the worker ends it; and at its end the queue is refused.

The machine takes one step of one handler or of the loop at a time, so that every order of them is a
run: a step is what is done under one lock, or one message, and an event says what comes of it where
that is up to the transport or the worker.
-/

namespace Rnx

open ErrState

namespace Jupyter.Kernel

/-! ## The state -/

/-- `Job`.  `weight` is its byte credit. -/
structure Job where
  parent : Parent
  code : String
  expressions : List String
  silent : Bool
  store : Bool
  stop : Bool
  weight : Nat

/-- The channels whose messages are handled. -/
inductive Channel
  | shell
  | control
  | stdin
deriving DecidableEq, Repr

/-- What a handler has left to do. -/
inductive Serving
  | load (parent : Parent) (silent : Bool) (name text : String)
  | refuse (parent : Parent) (silent : Bool) (name text : String) (count : Nat)
  | shellInfo (parent : Parent)
  | controlInfo (parent : Parent)
  | interrupt (parent : Parent)
  | retire (parent : Parent) (restart : Bool)
  | stop (parent : Parent) (restart : Bool)
  | farewell (parent : Parent) (restart : Bool)

/-- A settlement and what it settles.  It is `early` when the worker was not asked. -/
structure Settling where
  job : Job
  count : Nat
  reply : Json
  early : Bool

/-- How far the loop is. -/
inductive Stage
  | head
  | popped (job : Job)
  | busy (job : Job) (count : Nat)
  | entry (job : Job) (count : Nat)
  | operate (job : Job) (count : Nat)
  | operating (job : Job) (count : Nat) (op : Operation)
  | settle (S : Settling)
  | record (S : Settling) (aborted : List Job)
  | shown (S : Settling) (aborted : List Job) (metadata result : Json)
  | reply (S : Settling) (aborted : List Job) (metadata result : Json)
  | idle (S : Settling) (aborted : List Job)
  | refuse (S : Settling) (aborted : List Job)
  | ack (S : Settling)
  | failed (job : Job) (error : String)
  | died (job : Job) (reply : Json) (error : String)
  | closing (failure : Option String)
  | clean (failure : Option String)
  | drain (aborted : List Job) (failure : Option String)
  | finished (failure : Option String)

/-- `App`, the handlers at work and the loop.  `bytes` are the free permits, `stop` says that the
shutdown deadline is set and `noticed` that the loop has seen so while a job was executing, `next` is
the number of the next message and `worker` the id of the last operation. -/
structure State where
  out : Output
  pending : List Job
  retiring : Bool
  bytes : Nat
  stop : Bool
  noticed : Bool
  count : Nat
  book : Book
  next : Nat
  serving : List Serving
  worker : Nat
  stage : Stage

/-- The bound of a counter that JSON has to carry. -/
def maxCount : Nat := 2 ^ 53

namespace State

/-- An entry of the log. -/
def log (k : State) (entry : Entry) : State :=
  { k with out := { k.out with log := k.out.log ++ [entry] } }

/-- An entry for each of a list of jobs. -/
def logEach (k : State) (entry : Parent → Entry) (jobs : List Job) : State :=
  { k with out := { k.out with log := k.out.log ++ jobs.map fun job => entry job.parent } }

/-- Jobs are dropped, and with them their permits. -/
def release (k : State) (jobs : List Job) : State :=
  { k with bytes := k.bytes + (jobs.map (·.weight)).sum }

/-- The loop goes on at another stage. -/
def goOn (k : State) (stage : Stage) : State := { k with stage := stage }

/-- A handler goes on. -/
def serves (k : State) (v : Serving) : State := { k with serving := k.serving ++ [v] }

end State

/-! ## The handlers -/

/-- The content of a `kernel_info_reply`. -/
def kernelInfo (rune : String) : Json :=
  .obj [("status", .str "ok"), ("protocol_version", .str "5.4"), ("implementation", .str "rnx"),
    ("implementation_version", .str "0.0.0"),
    ("language_info", .obj [("name", .str "rune"), ("version", .str "0.15.0"),
      ("mimetype", .str "text/plain"), ("file_extension", .str ".rn")]),
    ("banner", .str ("Rune " ++ rune ++ " on rnx")), ("help_links", .arr [])]

/-- An `execute_request` on the shell channel. -/
def admitExecute (parent : Parent) (request : Request) (k : State) : State :=
  match options request with
  | .error e =>
      k.serves (.load parent ((request.content.get "silent").asBool == some true)
        "InvalidRequest" e)
  | .ok opts =>
      let weight := max opts.weight 1 % 2 ^ 32
      if k.retiring = true ∨ k.pending.length = 64 ∨ k.bytes < weight then
        k.serves (.load parent opts.silent "KernelBusy" "execution admission is closed or full")
      else
        let job : Job :=
          ⟨parent, opts.code, opts.keys, opts.silent, opts.store, opts.stop, weight⟩
        { k with bytes := k.bytes - weight, pending := k.pending ++ [job] }.log (.admitted parent)

/-- A handler returned an error: its connection is over. -/
def State.handlerFailed (k : State) (parent : Parent) (error : String) : State :=
  { k with out := { k.out with closed := parent.route :: k.out.closed } }.log (.failed parent error)

/-- Whether a message is an `execute_request` on the shell channel. -/
def isExecute (channel : Channel) (request : Request) : Bool :=
  request.kind == "execute_request" && channel == .shell

/-- `handle`, as far as the first lock it takes. -/
def dispatch (channel : Channel) (parent : Parent) (request : Request) (k : State) : State :=
  if isExecute channel request = true then admitExecute parent request k
  else if request.kind = "kernel_info_request" then
    if channel = .shell then k.serves (.shellInfo parent) else k.serves (.controlInfo parent)
  else if request.kind = "interrupt_request" ∧ channel = .control then
    k.serves (.interrupt parent)
  else if request.kind = "shutdown_request" ∧ (channel = .control ∨ channel = .shell) then
    match flag request.content "restart" false with
    | .error e => k.handlerFailed parent e
    | .ok restart => k.serves (.retire parent restart)
  else k

/-- A message that was authenticated. -/
def arrive (channel : Channel) (route : Nat) (request : Request) (k : State) : State :=
  let parent : Parent := ⟨k.next, route, request.routing, request.header⟩
  dispatch channel parent request
    ({ k with next := k.next + 1 }.log (.arrived parent (isExecute channel request)))

/-- What a handler's last computation came to. -/
def State.handled (k : State) (parent : Parent) : Except String Unit × Output → State
  | (.ok (), out) => { k with out := out }
  | (.error e, out) => { k with out := out }.handlerFailed parent e

/-- The reply to an interrupt request, the signal having been sent or not. -/
def interruptReply (o : Calls) (parent : Parent) : ErrState String Output Unit := do
  .ofExcept o.shown
  Output.reply o.reply parent .interruptReply (.obj []) (.obj [("status", .str "ok")])

/-- `Route::reply_written` of a `shutdown_reply`. -/
def shutdownReply (o : Calls) (parent : Parent) (restart : Bool) :
    ErrState String Output Unit := do
  let out ← .get
  if parent.route ∈ out.closed then .fail "closed generation"
  else
    Output.routeReply o.reply parent .shutdownReply (.obj [])
      (.obj [("restart", .bool restart), ("status", .str "ok")])

/-- One step of a handler, and what it has left to do. -/
def serve (rune : String) (o : Calls) (v : Serving) (k : State) : Option (State × Option Serving) :=
  match v with
  | .load parent silent name text => some (k, some (.refuse parent silent name text k.count))
  | .refuse parent silent name text count =>
      some (k.handled parent (Output.refusal o parent silent name text count k.out), none)
  | .shellInfo parent =>
      if k.out.idle = true then
        some (k.handled parent (Output.shellInfo o parent (kernelInfo rune) k.out), none)
      else none
  | .controlInfo parent =>
      some (k.handled parent (Output.controlInfo o parent (kernelInfo rune) k.out), none)
  | .interrupt parent => some (k.handled parent (interruptReply o parent k.out), none)
  | .retire parent restart => some ({ k with retiring := true }, some (.stop parent restart))
  | .stop parent restart =>
      match o.shown with
      | .error e => some (k.handlerFailed parent e, none)
      | .ok () => some ({ k with stop := true }, some (.farewell parent restart))
  | .farewell parent restart => some (k.handled parent (shutdownReply o parent restart k.out), none)

/-! ## The loop -/

/-- `execute` is over.  Its outcome is dropped when the loop has noticed the shutdown; otherwise an
error ends the loop.  Jobs that were to be refused are dropped with it. -/
def State.finish (k : State) (job : Job) (aborted : List Job) (result : Except String Unit) : State :=
  match result with
  | .ok () => (k.release [job]).goOn (if k.noticed = true then .closing none else .head)
  | .error e =>
      if k.noticed = true then
        (((k.logEach .left aborted).log (.abandoned job.parent)).release (job :: aborted)).goOn
          (.closing none)
      else
        (((k.logEach .left aborted).log (.failed job.parent e)).release aborted).goOn (.failed job e)

/-- The loop goes on where a computation of `execute` returned, and `execute` fails where it did
not. -/
def State.proceed (k : State) (job : Job) (aborted : List Job) (next : Stage) :
    Except String Unit × Output → State
  | (.ok (), out) => { k with out := out }.goOn next
  | (.error e, out) => { k with out := out }.finish job aborted (.error e)

/-- `execute`, where the counter goes up. -/
def State.start (k : State) (job : Job) : State :=
  if job.store = true then
    if k.count + 1 < maxCount then
      ({ k with count := k.count + 1, book := k.book.store (k.count + 1) job.code }.log
        (.started job.parent true)).goOn (.busy job (k.count + 1))
    else k.finish job [] (.error "notebook counter exhausted")
  else (k.log (.started job.parent false)).goOn (.busy job k.count)

/-- A settlement of a source that is too long. -/
def oversized : Json :=
  .obj [("failure", .obj [("category", .str "refused"),
    ("diagnostic", .str "input exceeds 32768 bytes"), ("origin", .null)]), ("text_plain", .null)]

/-- A settlement of nothing. -/
def settledEmpty : Json := .obj [("failure", .null), ("text_plain", .null)]

/-- The content of an `execute_input`. -/
def inputContent (job : Job) (count : Nat) : Json :=
  .obj [("code", .str job.code), ("execution_count", .nat count)]

/-- A silent job without a source is not given to the worker. -/
def entered (job : Job) (count : Nat) : Stage :=
  if job.silent = true ∧ job.code.isEmpty = true then .settle ⟨job, count, settledEmpty, true⟩
  else .operate job count

/-- `execute`, up to the call of the worker. -/
def State.enter (k : State) (o : Calls) (job : Job) (count : Nat) : State :=
  if 32768 < job.code.utf8ByteSize then k.goOn (.settle ⟨job, count, oversized, true⟩)
  else if job.silent = true then k.goOn (entered job count)
  else
    k.proceed job [] (entered job count)
      (Output.publishLocked o.shown (some job.parent) .executeInput (.obj [])
        (inputContent job count) k.out)

namespace Settling

/-- Whether the settlement is a failure. -/
def failed (S : Settling) : Bool := !(S.reply.get "failure").isNull

/-- The reply to a user expression. -/
def unsupported : Json := error "UnsupportedFeature" "user_expressions are not supported"

/-- The content of the reply. -/
def result (S : Settling) : Except String Json :=
  if S.failed = true then
    match ((S.reply.get "failure").get "diagnostic").asStr with
    | some diagnostic =>
        .ok ((error (category (S.reply.get "failure")) diagnostic).set "execution_count" (.nat S.count))
    | none => .error "worker failure lacks diagnostic"
  else
    .ok (.obj [("status", .str "ok"),
      ("user_expressions", .obj (S.job.expressions.map fun name => (name, unsupported))),
      ("payload", .arr []), ("execution_count", .nat S.count)])

/-- What is shown of the settlement. -/
def display (S : Settling) (o : Outcome) (metadata result : Json) : ErrState String Output Unit :=
  if S.job.silent = true then pure ()
  else if S.failed = true then
    Output.publishLocked o (some S.job.parent) .error metadata (errorOutput result)
  else
    match Html.resultData S.reply with
    | some data =>
        Output.publishLocked o (some S.job.parent) .executeResult metadata
          (.obj [("execution_count", .nat S.count), ("data", data), ("metadata", .obj [])])
    | none => pure ()

end Settling

/-- `take_pending`. -/
def State.takePending (k : State) : State := { k.logEach .aborted k.pending with pending := [] }

/-- The text of the reply to a job whose worker failed. -/
def diedText (e : String) : String := "worker boundary failed; state lost: " ++ e

/-- The refusal of an aborted job. -/
def abortion (o : Calls) (job : Job) (name text : String) (k : State) :
    Except String Unit × Output :=
  Output.refusal o job.parent job.silent name text k.count k.out

/-- One step of the loop. -/
def run (o : Calls) (k : State) : Option State :=
  match k.stage with
  | .head =>
      if k.stop = true then some (k.goOn (.closing none))
      else
        match k.pending with
        | [] => none
        | job :: rest => some (({ k with pending := rest }.log (.executed job.parent)).goOn (.popped job))
  | .popped job => some (k.start job)
  | .busy job count =>
      some (k.proceed job [] (.entry job count) (Output.status o.busy job.parent .busy k.out))
  | .entry job count => some (k.enter o job count)
  | .operate job count =>
      if k.worker + 1 < maxCount then
        some ({ k with worker := k.worker + 1 }.goOn (.operating job count (.new (k.worker + 1))))
      else some (k.finish job [] (.error "worker request identity exhausted"))
  | .operating job count op =>
      op.reply.map fun reply => k.goOn (.settle ⟨job, count, reply, false⟩)
  | .settle S =>
      if S.failed = true ∧ S.job.stop = true then some (k.takePending.goOn (.record S k.pending))
      else some (k.goOn (.record S []))
  | .record S aborted =>
      let book := k.book.map S.reply (if S.job.store = true then some S.count else none)
      match S.result with
      | .ok result => some ({ k with book := book }.goOn (.shown S aborted (book.metadata S.reply) result))
      | .error e => some ({ k with book := book }.finish S.job aborted (.error e))
  | .shown S aborted metadata result =>
      some (k.proceed S.job aborted (.reply S aborted metadata result)
        (S.display o.shown metadata result k.out))
  | .reply S aborted metadata result =>
      some (k.proceed S.job aborted (.idle S aborted)
        (Output.reply o.reply S.job.parent .executeReply metadata result k.out))
  | .idle S aborted =>
      some (k.proceed S.job aborted (.refuse S aborted)
        (Output.status o.idle S.job.parent .idle k.out))
  | .refuse S [] => some (if S.early = true then k.finish S.job [] (.ok ()) else k.goOn (.ack S))
  | .refuse S (job :: rest) =>
      match abortion o job "ExecutionAborted"
          "an earlier request failed with stop_on_error enabled" k with
      | (.ok (), out) => some (({ k with out := out }.release [job]).goOn (.refuse S rest))
      | (.error e, out) =>
          some ((({ k with out := out }.log (.failed job.parent e)).release [job]).finish S.job rest
            (.error e))
  | .ack S =>
      if (S.reply.get "state_lost").asBool = some true then
        some (k.finish S.job [] (.error "worker retired with state loss"))
      else some (k.finish S.job [] (.ok ()))
  | .failed job e =>
      let reply := (error "WorkerDied" (diedText e)).set "execution_count" (.nat k.count)
      let shown := if job.silent = true then k.out else
        (Output.publishLocked o.shown (some job.parent) .error
          (.obj [("rnx", .obj [("state_lost", .bool true)])]) (errorOutput reply) k.out).2
      some ({ k with out := shown }.goOn (.died job reply e))
  | .died job reply e =>
      match Output.reply o.reply job.parent .executeReply (.obj []) reply k.out with
      | (.ok (), out) => some (({ k with out := out }.release [job]).goOn (.closing (some e)))
      | (.error _, out) =>
          some ((({ k with out := out }.log (.unsent job.parent)).release [job]).goOn
            (.closing (some e)))
  | .closing failure => some ({ k with retiring := true }.goOn (.clean failure))
  | .clean failure => some ({ k.takePending with retiring := true }.goOn (.drain k.pending failure))
  | .drain [] failure => some (k.goOn (.finished failure))
  | .drain (job :: rest) failure =>
      match abortion o job "WorkerDied" "kernel is shutting down; state lost" k with
      | (.ok (), out) => some (({ k with out := out }.release [job]).goOn (.drain rest failure))
      | (.error e, out) =>
          some (((({ k with out := out }.log (.failed job.parent e)).logEach .left rest).release
            (job :: rest)).goOn (.finished failure))
  | .finished _ => none

/-- A piece of output of the worker. -/
structure StreamEvent where
  name : String
  text : String
  replaced : Bool
  unassociated : Bool

/-- The publication of a piece of output.  Output that belongs to no operation has an empty
parent. -/
def stream (o : Outcome) (parent : Option Parent) (event : StreamEvent) :
    ErrState String Output Unit :=
  Output.publishLocked o parent .stream
    (.obj [("rnx", .obj [("utf8_replaced", .bool event.replaced)])])
    (.obj [("name", .str event.name), ("text", .str event.text)])

/-- A piece of output arrives: while a job executes, or while the loop waits. -/
def streamed (o : Outcome) (event : StreamEvent) (k : State) : Option State :=
  match k.stage with
  | .operating job count op =>
      if job.silent = true ∧ event.unassociated = false then some k
      else
        let parent := if event.unassociated = true then none else some job.parent
        some (k.proceed job [] (.operating job count op) (stream o parent event k.out))
  | .head =>
      if k.pending = [] then
        match stream o none event k.out with
        | (.ok (), out) => some { k with out := out }
        | (.error e, out) => some ({ k with out := out }.goOn (.closing (some e)))
      else none
  | _ => none

/-- A control message of the worker. -/
def controlled (value : Json) (k : State) : Option State :=
  match k.stage with
  | .operating job count op =>
      match op.control value with
      | .ok op => some (k.goOn (.operating job count op))
      | .error e => some (k.finish job [] (.error e))
  | _ => none

/-- The worker fails: while a job executes or is acknowledged, or while the loop waits. -/
def workerFails (e : String) (k : State) : Option State :=
  match k.stage with
  | .operating job _ _ => some (k.finish job [] (.error e))
  | .ack S => some (k.finish S.job [] (.error e))
  | .head => if k.stop = true then none else some (k.goOn (.closing (some e)))
  | _ => none

/-- The loop notices the shutdown while `execute` has not begun or waits. -/
def notice (k : State) : Option State :=
  if k.stop = true ∧ k.noticed = false then
    match k.stage with
    | .popped _ | .operating .. | .ack _ => some { k with noticed := true }
    | _ => none
  else none

/-- The second that `execute` is given after that is over, and it is dropped where it waits. -/
def abandon (k : State) : Option State :=
  if k.noticed = true then
    match k.stage with
    | .operating job .. =>
        some (((k.log (.abandoned job.parent)).release [job]).goOn (.closing none))
    | .ack S => some (((k.log (.abandoned S.job.parent)).release [S.job]).goOn (.closing none))
    | _ => none
  else none

/-! ## The machine -/

/-- The events. -/
inductive Event
  | arrive (channel : Channel) (route : Nat) (request : Request)
  | serve (i : Nat) (o : Calls)
  | close (route : Nat)
  | run (o : Calls)
  | stream (event : StreamEvent) (o : Outcome)
  | control (value : Json)
  | workerFails (error : String)
  | notice
  | abandon

/-- One event. -/
def next (rune : String) (k : State) : Event → Option State
  | .arrive channel route request => some (arrive channel route request k)
  | .serve i o =>
      (k.serving[i]?).bind fun v => (serve rune o v k).map fun r =>
        { r.1 with serving := k.serving.eraseIdx i ++ r.2.toList }
  | .close route => some { k with out := { k.out with closed := route :: k.out.closed } }
  | .run o => run o k
  | .stream event o => streamed o event k
  | .control value => controlled value k
  | .workerFails e => workerFails e k
  | .notice => notice k
  | .abandon => abandon k

/-- The kernel once it is ready. -/
def State.new : State where
  out := ⟨[], [], true⟩
  pending := []
  retiring := false
  bytes := 4 * (1024 * 1024)
  stop := false
  noticed := false
  count := 0
  book := ⟨[], 0, []⟩
  next := 0
  serving := []
  worker := 0
  stage := .head

/-- The kernel, with the version of its language. -/
def machine (rune : String) : Machine State Event Unit where
  start k := k = .new
  next k e := (next rune k e).map (·, ())

end Jupyter.Kernel

end Rnx
