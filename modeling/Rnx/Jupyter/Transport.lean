import Rnx.Jupyter.Peer
import Rnx.Lib.Transition

/-!
# One endpoint and its connections

`transport.rs`: connections come with an identity of their own or none, are admitted to the table of
the endpoint under a lock and leave it when their task ends, however it ends.  Routes keep the peer
they were taken from.  A publication holds the lock of the table while it takes the permits of every
matching peer, then those of the publication semaphore, and only then enters the channels.

The machine takes one action of one task or thread at a time.  The actions under the lock are those
of the thread that has it; a packet or a refused sender returns its permits in one action.
-/

namespace Rnx

namespace Jupyter.Transport

/-- The peer table: identities, and the places of their peers in the order of admission. -/
abbrev Table := AList fun _ : Bytes => Nat

/-- What a publication does next.  `rest` are the peers still to be visited, `reserved` those whose
permits it has. -/
inductive PublishStage
  | visit (rest reserved : List Nat)
  | subs (i : Nat) (rest reserved : List Nat)
  | bytes (i : Nat) (rest reserved : List Nat)
  | count (i : Nat) (got : Bool) (rest reserved : List Nat)
  | deny (i : Nat) (rest reserved : List Nat)
  | drop (i : Nat) (rest reserved : List Nat)
  | globals (left reserved : List Nat)
  | abort (globals : Nat) (reserved : List Nat)
  | send (rest : List Nat)
deriving DecidableEq, Repr

/-- A publication that has the lock. -/
structure Publishing where
  wire : Wire
  topic : Bytes
  stage : PublishStage
deriving DecidableEq, Repr

/-- An endpoint and its peers.  `next` is the generation counter, `publication` the free permits of
the publication semaphore, `waiting` the publications that wait for the lock. -/
structure Endpoint where
  peers : List Peer
  table : Table
  next : Nat
  publication : Nat
  waiting : List (Wire × Bytes)
  publishing : Option Publishing
  shutdown : Bool

/-- What an action reports. -/
inductive Report
  | quiet
  | connected (i : Nat)
  | returned (result : Except String Unit)
  | queued (i : Nat)
  | skipped (i : Nat)
  | unmatched (i : Nat)
  | short (i : Nat)
  | granted (i : Nat)
  | lost (i : Nat)
deriving DecidableEq

/-! ## Admission -/

/-- The identity a handshake yields. -/
def handshakeIdentity (property : Option Bytes) : Except String (Option Bytes) :=
  match property with
  | some id =>
      if id.length > 255 then .error "identity length"
      else .ok (if id = [] then none else some id)
  | none => .ok none

/-- The identity made of a generation. -/
def generatedId (generation : Nat) : Bytes := 0 :: beBytes generation

/-- A generation whose identity is not in the table, given how many generations are left after it. -/
def generate (table : Table) : Nat → Nat → Except String (Bytes × Nat)
  | 0, generation =>
      if generatedId generation ∈ table then .error "generation exhausted"
      else .ok (generatedId generation, generation)
  | left + 1, generation =>
      if generatedId generation ∈ table then generate table left (generation + 1)
      else .ok (generatedId generation, generation)

/-- A peer enters the table. -/
def admitPeer (kind : Kind) (id : Bytes) (generation : Nat) (s : Endpoint) : Endpoint × Report :=
  ({ s with
      peers := s.peers ++ [.new kind id generation]
      table := s.table.insert id s.peers.length
      next := generation + 1 }, .connected s.peers.length)

/-- The admission of a connection. -/
def connect (kind : Kind) (property : Option Bytes) (s : Endpoint) : Endpoint × Report :=
  match handshakeIdentity property with
  | .error error => (s, .returned (.error error))
  | .ok identity =>
      if s.next < maxWord then
        match identity with
        | some id =>
            if id ∈ s.table then
              ({ s with next := s.next + 1 }, .returned (.error "live duplicate identity"))
            else admitPeer kind id s.next s
        | none =>
            match generate s.table (maxWord - 1 - s.next) s.next with
            | .ok (id, generation) => admitPeer kind id generation s
            | .error error => ({ s with next := maxWord }, .returned (.error error))
      else (s, .returned (.error "generation exhausted"))

/-! ## Publication -/

/-- The peer at `i` is replaced. -/
def Endpoint.setPeer (s : Endpoint) (i : Nat) (p : Peer) : Endpoint :=
  { s with peers := s.peers.set i p }

/-- The publication goes on at another stage. -/
def Endpoint.goOn (s : Endpoint) (P : Publishing) (stage : PublishStage) : Endpoint :=
  { s with publishing := some { P with stage := stage } }

/-- The permits held for the publication are returned. -/
def Peer.unreserve (p : Peer) : Peer := { p.release p.reserved with reserved := ⟨0, 0⟩ }

/-- `Publisher::publish` up to the lock. -/
def publish (parts : List Bytes) (s : Endpoint) : Endpoint × Report :=
  match parts with
  | [] => (s, .returned (.error "publication needs a topic"))
  | topic :: _ =>
      if s.shutdown = true then (s, .returned (.error "transport is shutting down"))
      else
        match encode parts with
        | .error error => (s, .returned (.error error))
        | .ok wire => ({ s with waiting := s.waiting ++ [(wire, topic)] }, .quiet)

/-- The places of the peers in the table. -/
def Endpoint.values (s : Endpoint) : List Nat := s.table.entries.map (·.2)

/-- A publication gets the lock; it visits the table in some order. -/
def lock (k : Nat) (order : List Nat) (s : Endpoint) : Option Endpoint :=
  match s.publishing, s.waiting[k]? with
  | none, some (wire, topic) =>
      if order.Perm s.values then
        some { s with
          waiting := s.waiting.eraseIdx k
          publishing := some ⟨wire, topic, .visit order []⟩ }
      else none
  | _, _ => none

/-- Whether a peer has subscribed to a prefix of the topic. -/
def Peer.subscribed (p : Peer) (topic : Bytes) : Bool := p.subs.keys.any (·.isPrefixOf topic)

/-- An action of a publication on the peer at `i`. -/
def publishAt (P : Publishing) (i : Nat) (p : Peer) (s : Endpoint) : Endpoint × Report :=
  let n := P.wire.capacity
  match P.stage with
  | .visit rest reserved =>
      if p.stop = true then (s.goOn P (.visit rest.tail reserved), .skipped i)
      else (s.goOn P (.subs i rest.tail reserved), .quiet)
  | .subs _ rest reserved =>
      if p.subscribed P.topic = true then (s.goOn P (.bytes i rest reserved), .quiet)
      else (s.goOn P (.visit rest reserved), .unmatched i)
  | .bytes _ rest reserved =>
      match p.takeBytes n with
      | some p =>
          ((s.setPeer i { p with reserved := ⟨n, 0⟩ }).goOn P (.count i true rest reserved), .quiet)
      | none => (s.goOn P (.count i false rest reserved), .short i)
  | .count _ got rest reserved =>
      match p.takeCount with
      | some p =>
          let s := s.setPeer i { p with reserved := ⟨p.reserved.bytes, 1⟩ }
          if got = true then (s.goOn P (.visit rest (reserved ++ [i])), .granted i)
          else (s.goOn P (.deny i rest reserved), .quiet)
      | none => (s.goOn P (.deny i rest reserved), .short i)
  | .deny _ rest reserved =>
      ((s.setPeer i { p with stop := true }).goOn P (.drop i rest reserved), .quiet)
  | .drop _ rest reserved => ((s.setPeer i p.unreserve).goOn P (.visit rest reserved), .quiet)
  | .abort globals reserved =>
      ((s.setPeer i p.unreserve).goOn P (.abort globals reserved.tail), .quiet)
  | .send rest =>
      match p.trySend ⟨P.wire, false, p.reserved, n⟩ with
      | some p => ((s.setPeer i { p with reserved := ⟨0, 0⟩ }).goOn P (.send rest.tail), .queued i)
      | none =>
          ({ s.setPeer i p.unreserve with publication := s.publication + n }.goOn P
            (.send rest.tail), .lost i)
  | .globals _ _ => (s, .quiet)

/-- The peer the next action of a publication is about. -/
def PublishStage.target : PublishStage → Option Nat
  | .visit rest _ | .send rest | .abort 0 rest => rest.head?
  | .subs i _ _ | .bytes i _ _ | .count i _ _ _ | .deny i _ _ | .drop i _ _ => some i
  | .abort (_ + 1) _ | .globals _ _ => none

/-- An action of a publication that is about no peer. -/
def publishOn (P : Publishing) (s : Endpoint) : Endpoint × Report :=
  match P.stage with
  | .visit _ reserved => (s.goOn P (.globals reserved reserved), .quiet)
  | .globals [] reserved => (s.goOn P (.send reserved), .quiet)
  | .globals (_ :: left) reserved =>
      if P.wire.capacity ≤ s.publication then
        ({ s with publication := s.publication - P.wire.capacity }.goOn P (.globals left reserved),
          .quiet)
      else
        (s.goOn P (.abort ((reserved.length - (left.length + 1)) * P.wire.capacity) reserved),
          .quiet)
  | .abort (globals + 1) reserved =>
      ({ s with publication := s.publication + (globals + 1) }.goOn P (.abort 0 reserved), .quiet)
  | .abort 0 _ => ({ s with publishing := none }, .returned (.error noPermits))
  | .send _ => ({ s with publishing := none }, .returned (.ok ()))
  | _ => (s, .quiet)

/-- `publish`, under the lock: one action. -/
def publishStep (s : Endpoint) : Option (Endpoint × Report) :=
  match s.publishing with
  | none => none
  | some P =>
      match P.stage.target with
      | some i => (s.peers[i]?).map fun p => publishAt P i p s
      | none => some (publishOn P s)

/-! ## The machine -/

/-- The actions. -/
inductive Event
  | connect (property : Option Bytes)
  | generation
  | subscribe (i : Nat) (parts : List Bytes)
  | reply (i : Nat) (written : Bool) (parts : List Bytes)
  | heartbeat (i : Nat) (command : Bytes)
  | request (i : Nat) (parts : List Bytes)
  | advance (i j : Nat)
  | settle (i j : Nat) (written : Except String Unit)
  | receive (i : Nat)
  | written (i : Nat)
  | finish (i : Nat)
  | closeReceiver (i : Nat)
  | drain (i : Nat)
  | stop (i : Nat)
  | remove (i : Nat)
  | publish (parts : List Bytes)
  | lock (k : Nat) (order : List Nat)
  | publishStep
  | shutdown

/-- The report of a sender's action. -/
def Sent.report (i : Nat) : Sent → Report
  | .going => .quiet
  | .queued => .queued i
  | .returned result => .returned result

/-- A sender starts on the peer at `i`. -/
def Endpoint.start (s : Endpoint) (i : Nat) (p : Peer) (v : Send) : Endpoint × Report :=
  (s.setPeer i { p with sends := v :: p.sends }, .quiet)

/-- One action on the peer at `i`. -/
def onPeer (kind : Kind) (s : Endpoint) (i : Nat) (p : Peer) :
    Event → Option (Endpoint × Report)
  | .subscribe _ parts =>
      if p.running = true ∧ kind = .pub then
        let r := subscription parts p
        some (s.setPeer i r.1, .returned r.2)
      else none
  | .reply _ written parts =>
      let origin := if written = true then .replyWritten else .reply
      some (s.start i p (enqueue origin (encode parts) p))
  | .heartbeat _ command =>
      if p.running = true then
        match heartbeat command with
        | .error error => some (s, .returned (.error error))
        | .ok none => some (s, .returned (.ok ()))
        | .ok (some wire) => some (s.start i p (enqueue .own (.ok wire) p))
      else none
  | .request _ parts =>
      if p.running = true ∧ kind = .rep then
        match parts with
        | [] :: _ => some (s.start i p (enqueue .own (encode parts) p))
        | _ => some (s, .returned (.error "REQ envelope"))
      else none
  | .advance _ j =>
      match p.sends[j]? with
      | some v =>
          if v.stage = .waiting then none
          else
            let r := advance v p
            some (s.setPeer i { r.1 with sends := r.2.1.toList ++ p.sends.eraseIdx j },
              r.2.2.report i)
      | none => none
  | .settle _ j written =>
      match p.sends[j]? with
      | some v =>
          if v.stage = .waiting then
            let r := settle v written
            some (s.setPeer i { p with sends := r.1.toList ++ p.sends.eraseIdx j }, r.2.report i)
          else none
      | none => none
  | .receive _ => p.receive.map fun p => (s.setPeer i p, .quiet)
  | .written _ =>
      if p.running = true ∧ p.current.isSome = true then
        let r := p.dropCurrent
        some ({ s.setPeer i r.1 with publication := s.publication + r.2 }, .quiet)
      else none
  | .finish _ =>
      if p.running = true then
        let r := p.dropCurrent
        some ({ s.setPeer i { r.1 with running := false } with
          publication := s.publication + r.2 }, .quiet)
      else none
  | .closeReceiver _ =>
      if p.running = false then some (s.setPeer i { p with opened := false }, .quiet) else none
  | .drain _ =>
      p.drain.map fun r => ({ s.setPeer i r.1 with publication := s.publication + r.2 }, .quiet)
  | .stop _ =>
      if p.running = false then some (s.setPeer i { p with stop := true }, .quiet) else none
  | .remove _ =>
      if p.running = false ∧ p.stop = true ∧ p.removed = false ∧ s.publishing = none then
        let same := (s.table.lookup p.id).bind fun j => (s.peers[j]?).map (·.generation)
        let table := if same = some p.generation then s.table.erase p.id else s.table
        some ({ s.setPeer i { p with removed := true } with table := table }, .quiet)
      else none
  | _ => none

/-- The peer an action is taken on. -/
def Event.peer : Event → Option Nat
  | .subscribe i _ | .reply i _ _ | .heartbeat i _ | .request i _ | .advance i _ | .settle i _ _
  | .receive i | .written i | .finish i | .closeReceiver i | .drain i | .stop i | .remove i => some i
  | _ => none

/-- One action on the endpoint. -/
def onEndpoint (kind : Kind) (s : Endpoint) : Event → Option (Endpoint × Report)
  | .connect property => if s.publishing = none then some (connect kind property s) else none
  | .generation =>
      if s.next < maxWord then some ({ s with next := s.next + 1 }, .quiet) else none
  | .publish parts => if kind = .pub then some (publish parts s) else none
  | .lock k order => (lock k order s).map fun s => (s, .quiet)
  | .publishStep => publishStep s
  | .shutdown => some ({ s with shutdown := true }, .quiet)
  | _ => none

/-- One action. -/
def next (kind : Kind) (s : Endpoint) (e : Event) : Option (Endpoint × Report) :=
  match e.peer with
  | some i => (s.peers[i]?).bind fun p => onPeer kind s i p e
  | none => onEndpoint kind s e

/-- `Server::bind`. -/
def Endpoint.new : Endpoint where
  peers := []
  table := ∅
  next := 1
  publication := 16 * mebi
  waiting := []
  publishing := none
  shutdown := false

/-- An endpoint of the given kind. -/
def machine (kind : Kind) : Machine Endpoint Event Report where
  start s := s = .new
  next := next kind

end Jupyter.Transport

end Rnx
