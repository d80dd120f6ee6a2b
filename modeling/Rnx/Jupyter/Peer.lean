import Mathlib.Algebra.BigOperators.Group.List.Basic
import Mathlib.Algebra.GroupWithZero.Nat
import Mathlib.Data.List.AList
import Mathlib.Tactic.Common
import Rnx.Jupyter.Capture

/-!
# Outgoing credit of a connection

`transport.rs`: a peer has permits for the bytes and for the number of packets it may have under
way, a bounded channel of packets and a writer that takes one packet at a time.  A packet keeps its
permits until it is dropped.  Whoever sends to a peer takes the permits one after the other and then
enters the channel, so several senders may be at any point of that at once.
-/

namespace Rnx

namespace Jupyter.Transport

/-- `M`. -/
def mebi : Nat := 1024 * 1024

/-- `usize::MAX` and `u64::MAX`. -/
def maxWord : Nat := 0xffffffffffffffff

/-! ## The wire -/

/-- Bytes on the wire and the capacity of their allocation, which is what they are charged. -/
structure Wire where
  bytes : Bytes
  capacity : Nat
deriving DecidableEq, Repr

/-- `u64::to_be_bytes`. -/
def beBytes (n : Nat) : Bytes := (List.range 8).map fun i => UInt8.ofNat (n >>> (8 * (7 - i)))

/-- One frame of a message. -/
def frame (more : Bool) (part : Bytes) : Bytes :=
  let more : UInt8 := if more = true then 1 else 0
  if part.length < 256 then more :: UInt8.ofNat part.length :: part
  else (more ||| 2) :: beBytes part.length ++ part

/-- The frames of a message: all but the last say that more follow. -/
def frames : List Bytes → Bytes
  | [] => []
  | [part] => frame false part
  | part :: rest => frame true part ++ frames rest

/-- `usize::checked_add`. -/
def checkedAdd (n m : Nat) : Option Nat := if n + m ≤ maxWord then some (n + m) else none

/-- The size that is reserved for a message. -/
def wireSize (parts : List Bytes) : Option Nat :=
  parts.foldlM (fun n p => (checkedAdd n p.length).bind fun n => checkedAdd n 9) 0

/-- `encode`. -/
def encode (parts : List Bytes) : Except String Wire :=
  match wireSize parts with
  | none => .error "wire overflow"
  | some size =>
      if size > 2 * mebi then .error "outgoing wire cap" else .ok ⟨frames parts, size⟩

/-- `\x04PING`. -/
def ping : Bytes := [4, 80, 73, 78, 71]

/-- `\x04PONG`. -/
def pong : Bytes := [4, 80, 79, 78, 71]

/-- `heartbeat`: the answer to a command, when it wants one. -/
def heartbeat (command : Bytes) : Except String (Option Wire) :=
  if ping.isPrefixOf command = true ∧ 7 ≤ command.length ∧ command.length ≤ 23 then
    .ok (some ⟨4 :: UInt8.ofNat (command.length - 2) :: (pong ++ command.drop 7), command.length⟩)
  else if pong.isPrefixOf command = true ∧ 5 ≤ command.length ∧ command.length ≤ 21 then .ok none
  else .error "malformed or unsupported traffic command"

/-! ## Peers -/

/-- Permits of the two semaphores of a peer. -/
structure Credit where
  bytes : Nat
  count : Nat
deriving DecidableEq, Repr

/-- `Packet`.  `global` is what it holds of the publication semaphore; `written` says that a sender
waits for the write. -/
structure Packet where
  wire : Wire
  written : Bool
  credit : Credit
  global : Nat
deriving DecidableEq, Repr

/-- Who sends: `Route::reply`, `Route::reply_written`, or the connection itself. -/
inductive Origin
  | reply
  | replyWritten
  | own
deriving DecidableEq, Repr

/-- What a sender in `enqueue_with` does next: take its bytes, take its count, or enter the channel.
One that was refused drops its permits; a route then stops the peer.  `waiting` is after the
channel. -/
inductive Stage
  | bytes
  | count
  | enter
  | refused (error : String)
  | stopping (error : String)
  | waiting
deriving DecidableEq, Repr

/-- A sender. -/
structure Send where
  origin : Origin
  wire : Wire
  stage : Stage
  held : Credit
deriving DecidableEq, Repr

/-- `Peer`, with the connection that serves it: its senders, the permits the publication in progress
holds of it, the packet in its writer, and whether its tasks run, its receiver is there and it has
left the table. -/
structure Peer where
  id : Bytes
  generation : Nat
  stop : Bool
  free : Credit
  subs : AList fun _ : Bytes => Nat
  queue : List Packet
  current : Option Packet
  sends : List Send
  reserved : Credit
  running : Bool
  opened : Bool
  removed : Bool

/-- The kinds of endpoints. -/
inductive Kind
  | router
  | rep
  | pub
deriving DecidableEq, Repr

/-- The permits of a new peer. -/
def Kind.limit : Kind → Credit
  | .pub => ⟨2 * mebi, 64⟩
  | _ => ⟨mebi, 32⟩

/-- The capacity of the channel of a peer. -/
def channelCapacity : Nat := 64

/-- The peer of a new connection. -/
def Peer.new (kind : Kind) (id : Bytes) (generation : Nat) : Peer where
  id := id
  generation := generation
  stop := false
  free := kind.limit
  subs := ∅
  queue := []
  current := none
  sends := []
  reserved := ⟨0, 0⟩
  running := true
  opened := true
  removed := false

/-- Permits that are returned. -/
def Peer.release (p : Peer) (c : Credit) : Peer :=
  { p with free := ⟨p.free.bytes + c.bytes, p.free.count + c.count⟩ }

/-- `try_acquire_many_owned` of the bytes. -/
def Peer.takeBytes (p : Peer) (n : Nat) : Option Peer :=
  if n ≤ p.free.bytes then some { p with free := ⟨p.free.bytes - n, p.free.count⟩ } else none

/-- `try_acquire_owned` of the count. -/
def Peer.takeCount (p : Peer) : Option Peer :=
  if 1 ≤ p.free.count then some { p with free := ⟨p.free.bytes, p.free.count - 1⟩ } else none

/-- `mpsc::Sender::try_send`. -/
def Peer.trySend (p : Peer) (packet : Packet) : Option Peer :=
  if p.opened = true ∧ p.queue.length < channelCapacity then
    some { p with queue := p.queue ++ [packet] }
  else none

/-! ## Senders -/

/-- `TryAcquireError`. -/
def noPermits : String := "no permits available"

/-- What a step of a sender comes to. -/
inductive Sent
  | going
  | queued
  | returned (result : Except String Unit)
deriving DecidableEq

/-- The beginning of a send: the message is encoded and the stop flag is read. -/
def enqueue (origin : Origin) (wire : Except String Wire) (p : Peer) : Send :=
  match wire with
  | .error error => ⟨origin, ⟨[], 0⟩, .refused error, ⟨0, 0⟩⟩
  | .ok wire =>
      if p.stop = true then ⟨origin, wire, .refused "closed generation", ⟨0, 0⟩⟩
      else ⟨origin, wire, .bytes, ⟨0, 0⟩⟩

/-- The next action of a sender: the peer, the sender unless it has returned, and the outcome. -/
def advance (v : Send) (p : Peer) : Peer × Option Send × Sent :=
  match v.stage with
  | .bytes =>
      match p.takeBytes v.wire.capacity with
      | some p => (p, some { v with stage := .count, held := ⟨v.wire.capacity, 0⟩ }, .going)
      | none => (p, some { v with stage := .refused noPermits }, .going)
  | .count =>
      match p.takeCount with
      | some p => (p, some { v with stage := .enter, held := ⟨v.held.bytes, 1⟩ }, .going)
      | none => (p, some { v with stage := .refused noPermits }, .going)
  | .enter =>
      match p.trySend ⟨v.wire, v.origin == .replyWritten, v.held, 0⟩ with
      | some p =>
          match v.origin with
          | .replyWritten => (p, some { v with stage := .waiting, held := ⟨0, 0⟩ }, .queued)
          | _ => (p, none, .queued)
      | none => (p, some { v with stage := .refused "reply admission" }, .going)
  | .refused error =>
      match v.origin with
      | .own => (p.release v.held, none, .returned (.error error))
      | _ => (p.release v.held, some { v with stage := .stopping error, held := ⟨0, 0⟩ }, .going)
  | .stopping error => ({ p with stop := true }, none, .returned (.error error))
  | .waiting => (p, some v, .going)

/-- The end of a `reply_written` that waits: the write was confirmed in time, or was not. -/
def settle (v : Send) (written : Except String Unit) : Option Send × Sent :=
  match written with
  | .ok () => (none, .returned (.ok ()))
  | .error error => (some { v with stage := .stopping error }, .going)

/-! ## The connection -/

/-- `subscription`. -/
def subscription (parts : List Bytes) (p : Peer) : Peer × Except String Unit :=
  match parts with
  | [command :: key] =>
      if (command :: key).length > 257 then (p, .error "subscription")
      else if command = 1 then
        if (p.subs.lookup key).isNone = true ∧ p.subs.entries.length = 128 then
          (p, .error "subscription count")
        else
          let v := (p.subs.lookup key).getD 0
          if v < 0xffff then ({ p with subs := p.subs.insert key (v + 1) }, .ok ())
          else (p, .error "subscription overflow")
      else if command = 0 then
        match p.subs.lookup key with
        | some n =>
            if n - 1 = 0 then ({ p with subs := p.subs.erase key }, .ok ())
            else ({ p with subs := p.subs.insert key (n - 1) }, .ok ())
        | none => (p, .ok ())
      else (p, .error "subscription prefix")
  | _ => (p, .error "subscription")

/-- The writer takes the next packet. -/
def Peer.receive (p : Peer) : Option Peer :=
  match p.current, p.queue with
  | none, packet :: rest =>
      if p.running = true then some { p with current := some packet, queue := rest } else none
  | _, _ => none

/-- The packet in the writer is dropped, with what it returns of the publication semaphore. -/
def Peer.dropCurrent (p : Peer) : Peer × Nat :=
  match p.current with
  | some packet => ({ p.release packet.credit with current := none }, packet.global)
  | none => (p, 0)

/-- A packet of a closed channel is dropped. -/
def Peer.drain (p : Peer) : Option (Peer × Nat) :=
  match p.queue with
  | packet :: rest =>
      if p.opened = false then some ({ p.release packet.credit with queue := rest }, packet.global)
      else none
  | [] => none

end Jupyter.Transport

end Rnx
