import Mathlib.Algebra.Group.Nat.Defs
import Rnx.Jupyter.Capture
import Rnx.Jupyter.Control

/-!
# The worker and its supervisor

`Worker::operation` of the kernel with its stream and control readers, and the loop of `rnx worker`,
as they exchange requests, output, messages and acknowledgements.  Each of them takes its steps when
it likes, and a read takes any number of bytes, so every order and every splitting is a run.  What
may fail at any time, the processes, the pipes and the sink, does so in steps of its own.

The stream that carries output of an operation is closed by a barrier the worker writes, so the
model also keeps, for each stream, what has been written to it since the last one.
-/

namespace Rnx

namespace Jupyter.Worker

/-! ## Messages -/

/-- The streams, in the order of their indices. -/
inductive Stream
  | stdout
  | stderr
deriving DecidableEq, Repr

/-- The name of a stream. -/
def Stream.name : Stream → String
  | .stdout => "stdout"
  | .stderr => "stderr"

/-- What the worker takes for a nonce: 64 lowercase hexadecimal digits. -/
def nonceOk (n : List Char) : Bool :=
  decide (n.length = 64) && n.all fun c => c.isDigit || (decide ('a' ≤ c) && decide (c ≤ 'f'))

/-- The nonce of an operation, two identifiers in hexadecimal digits. -/
structure Nonce where
  digits : List Char
  valid : nonceOk digits = true

/-- `MAX_ID`. -/
def maxId : Nat := 2 ^ 53 - 1

/-- What the kernel sends: a request, without a source for a shutdown, or an acknowledgement. -/
inductive ToWorker
  | request (id : Nat) (nonce : List Char) (source : Option String)
  | ack (id : Nat)
deriving DecidableEq, Repr

/-- The epoch of a session that is not reset; the kernel never asks for a reset. -/
def epoch : Nat := 1

/-- The message that the input is armed. -/
def armedMessage (id input : Nat) : Json :=
  .obj [("type", .str "armed"), ("id", .nat id), ("epoch", .nat epoch), ("input", .nat input)]

/-- What an evaluation or a close came to. -/
structure Outcome where
  text_plain : Option String
  text_html : Option String
  failure : Json
  state_lost : Bool

/-- A text or `null`. -/
def textOr : Option String → Json
  | some s => .str s
  | none => .null

/-- The settlement of a request. -/
def settledMessage (id : Nat) (input : Option Nat) (o : Outcome) : Json :=
  .obj ([("type", .str "settled"), ("id", .nat id), ("epoch", .nat epoch),
    ("input", match input with | some n => .nat n | none => .null),
    ("text_plain", textOr o.text_plain), ("text_html", textOr o.text_html),
    ("failure", o.failure), ("state_lost", .bool o.state_lost)] ++
    if o.text_plain.isSome then [("render_bounded", .bool true)] else [])

/-! ## Streams -/

/-- `Late`: output of no operation. -/
structure Late where
  data : Bytes
  discarded : Nat

/-- `Late::feed`, and whether it succeeds. -/
def Late.feed (room : Bool) (b : Bytes) (l : Late) : Bool × Late :=
  let n := min b.length (cap - l.data.length)
  if room = false then (false, l)
  else
    let l := { l with data := l.data ++ b.take n }
    if l.discarded + (b.length - n) ≤ maxDiscarded then
      (true, { l with discarded := l.discarded + (b.length - n) })
    else (false, l)

/-- Where a stream is in the operation at hand: before its request was accepted, before its barrier,
or past it. -/
inductive Place
  | before
  | during
  | past
deriving DecidableEq, Repr

/-- A stream: its capture and what the kernel has of it, the bytes on their way, and what has been
written to it.  `gap` is what was written since the last barrier before a request was accepted and
`output` what was written from then on; `done` is these two of the last barrier; `since` is all
that was not read when the operation at hand began or was written since. -/
structure Line where
  capture : Option Capture
  late : Late
  reader : Bool
  sunk : Bytes
  ended : Bool
  pipe : Bytes
  place : Place
  gap : Bytes
  output : Bytes
  done : Bytes × Bytes
  since : Bytes

namespace Line

/-- A stream of a worker that was started. -/
def new : Line where
  capture := none
  late := ⟨[], 0⟩
  reader := true
  sunk := []
  ended := false
  pipe := []
  place := .past
  gap := []
  output := []
  done := ([], [])
  since := []

/-- An operation begins. -/
def begin (c : Capture) (ln : Line) : Line :=
  { ln with
    capture := some c
    sunk := []
    ended := false
    place := .before
    since := ln.pipe }

/-- The reader takes the first bytes of the pipe. -/
def read (n : Nat) (room roomLate : Bool) (ln : Line) : Line :=
  let b := ln.pipe.take n
  let ln := { ln with pipe := ln.pipe.drop n }
  match ln.capture with
  | none =>
      let (ok, late) := ln.late.feed roomLate b
      { ln with late := late, reader := ok }
  | some c =>
      match c.feed room b with
      | (.ok tail, c) =>
          let (ok, late) := ln.late.feed roomLate tail
          { ln with capture := some c, late := late, reader := ok }
      | (.error _, c) => { ln with capture := some c, reader := false }

/-- One turn of the inner loop of `operation`: a chunk goes to the sink. -/
def pull (c : Capture) (ln : Line) : Line :=
  let (c, b) := c.take
  { ln with capture := some c, sunk := ln.sunk ++ b, ended := c.ended && b.isEmpty }

/-- The request is accepted. -/
def accept (ln : Line) : Line := { ln with place := .during }

/-- Something is written. -/
def write (b : Bytes) (ln : Line) : Line :=
  match ln.place with
  | .during =>
      { ln with pipe := ln.pipe ++ b, output := ln.output ++ b, since := ln.since ++ b }
  | _ => { ln with pipe := ln.pipe ++ b, gap := ln.gap ++ b, since := ln.since ++ b }

/-- `marker`: the barrier is written. -/
def bar (m : Bytes) (ln : Line) : Line :=
  { ln with
    pipe := ln.pipe ++ m
    since := ln.since ++ m
    done := (ln.gap, ln.output)
    gap := []
    output := []
    place := .past }

/-- The operation is over. -/
def clear (ln : Line) : Line := { ln with capture := none }

/-- The marker of the operation at hand is in the stream although its barrier is not. -/
def isForged (ln : Line) : Bool :=
  match ln.capture with
  | some c => decide (ln.place ≠ .past) && (Barrier.position c.marker ln.since).isSome
  | none => false

/-- The marker is in the stream before the place where the barrier is written. -/
def forges (m : Bytes) (ln : Line) : Bool :=
  decide (Barrier.position m (ln.since ++ m) ≠ some ln.since.length)

end Line

/-! ## The two processes -/

/-- `Worker::operation`: how far it is. -/
inductive Phase
  | idle
  | opened (id : Nat) (nonce : List Char) (source : Option String)
  | running (op : Operation)
  | completed (op : Operation)
  | acked (op : Operation)

/-- A request that was accepted, and the input it was armed with. -/
structure Accepted where
  id : Nat
  nonce : List Char
  source : Option String
  input : Option Nat

/-- The loop of `run`: how far it is.  A worker that settles has barriers left to write. -/
inductive Turn
  | waiting
  | working (r : Accepted)
  | settling (r : Accepted) (reply : Json) (retire : Bool) (left : List Stream)
  | awaiting (id : Nat) (retire : Bool)
  | gone

/-- A request that was settled: what was written before it was accepted, from then to the barrier,
and the settlement. -/
structure Round where
  id : Nat
  reply : Json
  gap : Stream → Bytes
  output : Stream → Bytes

/-- An operation that was acknowledged: the settlement and the output that went to the sink, and how
much did not. -/
structure Report where
  id : Nat
  reply : Json
  output : Stream → Bytes
  discarded : Stream → Nat

/-- The two processes.  `requests`, `accepted`, `acks`, `rounds` and `reports` are what has been
sent, accepted, taken for an acknowledgement, settled and acknowledged; `forged` says that a marker
got into a stream in another way than by its barrier; `refused` and `fault` say that one of the two
did not take a message of the other. -/
structure System where
  id : Nat
  phase : Phase
  failed : Bool
  error : Bool
  refused : Option String
  lines : Stream → Line
  toWorker : List ToWorker
  toKernel : List Json
  turn : Turn
  last : Nat
  alive : Bool
  fault : Bool
  requests : List Nat
  accepted : List Nat
  acks : List Nat
  rounds : List Round
  reports : List Report
  forged : Bool

namespace System

/-- A worker that is ready. -/
def new : System where
  id := 0
  phase := .idle
  failed := false
  error := false
  refused := none
  lines := fun _ => .new
  toWorker := []
  toKernel := []
  turn := .waiting
  last := 0
  alive := true
  fault := false
  requests := []
  accepted := []
  acks := []
  rounds := []
  reports := []
  forged := false

/-- A stream is replaced. -/
def setLine (s : System) (i : Stream) (ln : Line) : System :=
  { s with lines := fun j => if j = i then ln else s.lines j }

/-- `operation`, up to the request: it is refused while the last one is not acknowledged. -/
def begin (s : System) (nonce : Nonce) (source : Option String) : Option System :=
  if s.error = true ∨ ¬ s.id + 1 < 2 ^ 53 then none
  else
    let s := { s with id := s.id + 1 }
    match s.phase with
    | .idle =>
        let lines := fun i : Stream =>
          (s.lines i).begin (.new s.id i.name (String.ofList nonce.digits))
        some { s with
          phase := .opened s.id nonce.digits source
          failed := false
          lines := lines
          forged := s.forged || (lines .stdout).isForged || (lines .stderr).isForged }
    | _ => some s

/-- The request is sent. -/
def send (s : System) : Option System :=
  match s.failed, s.phase with
  | false, .opened id nonce source => some { s with
      phase := .running (.new id)
      toWorker := s.toWorker ++ [.request id nonce source]
      requests := s.requests ++ [id] }
  | _, _ => none

/-- A reader reads. -/
def read (s : System) (i : Stream) (n : Nat) (room roomLate : Bool) : Option System :=
  if (s.lines i).reader = true then
    let ln := (s.lines i).read n room roomLate
    some { s.setLine i ln with error := s.error || !ln.reader }
  else none

/-- A reader ends. -/
def close (s : System) (i : Stream) : Option System :=
  some { s.setLine i { s.lines i with reader := false } with error := true }

/-- A chunk goes to the sink. -/
def pull (s : System) (i : Stream) : Option System :=
  match s.failed, s.phase, (s.lines i).ended, (s.lines i).capture with
  | false, .running _, false, some c => some (s.setLine i ((s.lines i).pull c))
  | _, _, _, _ => none

/-- A message of the worker is taken, or ends the operation. -/
def receive (s : System) : Option System :=
  match s.failed, s.phase, s.toKernel with
  | false, .running op, value :: rest =>
      match op.control value with
      | .ok op => some { s with phase := .running op, toKernel := rest }
      | .error e => some { s with failed := true, refused := some e, toKernel := rest }
  | _, _, _ => none

/-- Both streams have ended, the reply is there, and `complete` has succeeded. -/
def complete (s : System) : Option System :=
  match s.failed, s.phase with
  | false, .running op =>
      if (s.lines .stdout).ended = true ∧ (s.lines .stderr).ended = true ∧
          op.reply.isSome = true then
        some { s with phase := .completed op }
      else none
  | _, _ => none

/-- What an acknowledgement reports. -/
def report (s : System) (op : Operation) : Report where
  id := op.id
  reply := op.reply.getD .null
  output := fun i => (s.lines i).sunk
  discarded := fun i => ((s.lines i).capture.map (·.discarded)).getD 0

/-- The acknowledgement is sent. -/
def acknowledge (s : System) : Option System :=
  match s.failed, s.phase with
  | false, .completed op => some { s with
      phase := .acked op
      toWorker := s.toWorker ++ [.ack op.id]
      reports := s.reports ++ [s.report op] }
  | _, _ => none

/-- The captures are given up. -/
def clear (s : System) : Option System :=
  match s.phase with
  | .acked _ => some { s with phase := .idle, lines := fun i => (s.lines i).clear }
  | _ => none

/-- The operation fails: at the sink, at a deadline or because of an error that was noted. -/
def fail (s : System) : Option System :=
  match s.phase with
  | .acked _ => none
  | _ => some { s with failed := true }

/-- The worker receives a message while it waits for a request. -/
def accept (s : System) : Option System :=
  match s.alive, s.turn, s.toWorker with
  | true, .waiting, .request id nonce source :: rest =>
      if s.last < id ∧ id ≤ maxId ∧ nonceOk nonce = true then some { s with
        toWorker := rest
        turn := .working ⟨id, nonce, source, none⟩
        last := id
        accepted := s.accepted ++ [id]
        lines := fun i => (s.lines i).accept }
      else some { s with toWorker := rest, alive := false, fault := true }
  | true, .waiting, .ack _ :: rest =>
      some { s with toWorker := rest, alive := false, fault := true }
  | _, _, _ => none

/-- Something is written to a stream, by the script, by a thread or by a process it left behind. -/
def write (s : System) (i : Stream) (b : Bytes) : Option System :=
  let ln := (s.lines i).write b
  some { s.setLine i ln with forged := s.forged || ln.isForged }

/-- The input is armed. -/
def arm (s : System) (input : Nat) : Option System :=
  match s.alive, s.turn with
  | true, .working ⟨id, nonce, some source, none⟩ =>
      if 0 < input then some { s with
        turn := .working ⟨id, nonce, some source, some input⟩
        toKernel := s.toKernel ++ [armedMessage id input] }
      else none
  | _, _ => none

/-- The evaluation or the close is over. -/
def finish (s : System) (o : Outcome) : Option System :=
  match s.alive, s.turn with
  | true, .working r => some { s with
      turn := .settling r (settledMessage r.id r.input o) (r.source.isNone || o.state_lost)
        [.stdout, .stderr] }
  | _, _ => none

/-- The next barrier is written. -/
def bar (s : System) : Option System :=
  match s.alive, s.turn with
  | true, .settling r reply retire (i :: left) =>
      let m := Capture.markerBytes r.id i.name (String.ofList r.nonce)
      let t := s.setLine i ((s.lines i).bar m)
      some { t with
        turn := .settling r reply retire left
        forged := s.forged || (s.lines i).forges m }
  | _, _ => none

/-- The settlement is sent. -/
def settle (s : System) : Option System :=
  match s.alive, s.turn with
  | true, .settling r reply retire [] => some { s with
      turn := .awaiting r.id retire
      toKernel := s.toKernel ++ [reply]
      rounds := s.rounds ++
        [⟨r.id, reply, fun i => (s.lines i).done.1, fun i => (s.lines i).done.2⟩] }
  | _, _ => none

/-- The worker receives a message while it waits for the acknowledgement. -/
def resume (s : System) : Option System :=
  match s.alive, s.turn, s.toWorker with
  | true, .awaiting id retire, .ack n :: rest =>
      if n = id then some { s with
        toWorker := rest
        turn := if retire = true then .gone else .waiting
        acks := s.acks ++ [id] }
      else some { s with toWorker := rest, alive := false, fault := true }
  | true, .awaiting _ _, .request _ _ _ :: rest =>
      some { s with toWorker := rest, alive := false, fault := true }
  | _, _, _ => none

/-- The worker dies. -/
def die (s : System) : Option System := some { s with alive := false }

end System

/-- The steps. -/
inductive Event
  | begin (nonce : Nonce) (source : Option String)
  | send
  | read (i : Stream) (n : Nat) (room roomLate : Bool)
  | close (i : Stream)
  | pull (i : Stream)
  | receive
  | complete
  | acknowledge
  | clear
  | fail
  | accept
  | write (i : Stream) (b : Bytes)
  | arm (input : Nat)
  | finish (o : Outcome)
  | bar
  | settle
  | resume
  | die

/-- One step. -/
def next (s : System) : Event → Option System
  | .begin nonce source => s.begin nonce source
  | .send => s.send
  | .read i n room roomLate => s.read i n room roomLate
  | .close i => s.close i
  | .pull i => s.pull i
  | .receive => s.receive
  | .complete => s.complete
  | .acknowledge => s.acknowledge
  | .clear => s.clear
  | .fail => s.fail
  | .accept => s.accept
  | .write i b => s.write i b
  | .arm input => s.arm input
  | .finish o => s.finish o
  | .bar => s.bar
  | .settle => s.settle
  | .resume => s.resume
  | .die => s.die

/-- The kernel and its worker. -/
def machine : Machine System Event Unit where
  start s := s = .new
  next s e := (next s e).map (·, ())

end Jupyter.Worker

end Rnx
