import Rnx.Host.Lifecycle

/-!
# Reusable invocation slots

`server.rs`: a slot owns one context for as long as it lives and serves one invocation at a time.
An invocation runs at most once, on its own lifecycle generation; its `close` revokes what the slot
owns and hands the slot back, unless a cleanup failed.

The machine takes the calls of the slot's owner, the polls and drops of a run future and the steps
of the tracked values in any order.  A value matters to a slot by the tracked values it owns, and
what the handler does before it completes are steps of the context.  Each step yields the calls it
made on the lifecycle.
-/

namespace Rnx

namespace Host.Slots

open Lifecycle (System State Dropped maxIdentity)

/-- `runner::LARGEST_BUDGET`, where `usize` has 64 bits. -/
def largestBudget : Nat := 0xffffffffffffffff - 1

/-- `Failure`, without its place in the source. -/
structure Failure where
  category : String
  message : String
deriving DecidableEq, Repr

/-- A Rune value: the tracked values it owns, by their places in the context. -/
abbrev Value := List Nat

/-- `Stage`. -/
inductive Stage
  | ready
  | begun
  | done
deriving DecidableEq, Repr

/-- `SlotInvocation`, without its slot. -/
structure SlotInvocation where
  arguments : Option (List Value)
  handler : String
  budget : Nat
  stage : Stage
  failure : Option Failure
  cleanup : Option Failure
deriving DecidableEq, Repr

/-! ## Calls on the lifecycle -/

/-- A call on the lifecycle and its answer. -/
abbrev Call := Lifecycle.Event × Lifecycle.Output

/-- A context and the calls a step has made on it. -/
structure Traced where
  context : System
  calls : List Call

/-- One call, and the result it answers with. -/
def Traced.call (w : Traced) (e : Lifecycle.Event) : Traced × Except String Unit :=
  match Lifecycle.next w.context e with
  | some (c, .done answer) => (⟨c, w.calls ++ [(e, .done answer)]⟩, answer)
  | some (c, out) => (⟨c, w.calls ++ [(e, out)]⟩, .ok ())
  | none => (w, .ok ())

/-- Drop of a tracked value at its place, when it is still there. -/
def dropAt (drops : Nat → Dropped) (w : Traced) (i : Nat) : Traced :=
  match w.context.at? i with
  | some (.owner o) => (w.call (.drop i (drops o.key))).1
  | _ => (w.call (.drop i none)).1

/-- Drop of the arguments of an invocation. -/
def dropArguments (drops : Nat → Dropped) (arguments : Option (List Value)) (w : Traced) : Traced :=
  (arguments.getD []).flatten.foldl (dropAt drops) w

/-- `Lifecycle::reusable` of an enabled context. -/
def reusable (s : State) : Bool :=
  !s.active && !s.retired && decide (s.generation < maxIdentity) && s.failure.isNone

/-- `Owner::close`. -/
def ownerClose (drops : Nat → Dropped) (w : Traced) : Traced × Except Failure Unit :=
  let r := w.call (.close drops)
  (r.1, r.2.mapError (Failure.mk "cleanup"))

/-- Drop of a slot: `Drop for Owner`. -/
def dropSlot (drops : Nat → Dropped) (w : Traced) : Traced := (ownerClose drops w).1

/-- `Slot::retire_unless_healthy`; the slot it does not hand back is dropped. -/
def retireUnlessHealthy (drops : Nat → Dropped) (w : Traced) : Traced × Except Failure Unit :=
  if reusable w.context.state = true then (w, .ok ())
  else
    let r := ownerClose drops w
    let failure := match r.2 with
      | .ok () => ⟨"cleanup", "slot lifecycle failed"⟩
      | .error failure => failure
    (dropSlot drops r.1, .error failure)

/-! ## The invocation -/

/-- `Slot::prepare`.  An error says whether the slot is handed back with it. -/
def prepare (handler : String) (arguments : List Value) (budget : Nat) (drops : Nat → Dropped)
    (w : Traced) : Traced × Except (Failure × Bool) SlotInvocation :=
  if budget = 0 ∨ budget > largestBudget then
    let w := dropArguments drops (some arguments) w
    let failure : Failure := ⟨"preparation", "budget must be 1 to " ++ toString largestBudget⟩
    let r := retireUnlessHealthy drops w
    match r.2 with
    | .ok () => (r.1, .error (failure, true))
    | .error cleanup => (r.1, .error (cleanup, false))
  else
    (w, .ok {
      arguments := some arguments
      handler := handler
      budget := budget
      stage := .ready
      failure := none
      cleanup := none })

/-- `SlotInvocation::run` up to the handler: the error it returns early with, or none once the
handler has the arguments. -/
def runUntilHandler (v : SlotInvocation) (w : Traced) : Traced × SlotInvocation × Option Failure :=
  if v.stage ≠ .ready then (w, v, some ⟨"preparation", "invocation has already run"⟩)
  else
    let r := w.call .begin
    match r.2 with
    | .error error =>
        let failure : Failure := ⟨"cleanup", error⟩
        (r.1, { v with stage := .done, cleanup := some failure, failure := some failure },
          some failure)
    | .ok () => (r.1, { v with stage := .begun, arguments := none }, none)

/-- `Result::err`. -/
def errOf (result : Except Failure Value) : Option Failure :=
  match result with
  | .ok _ => none
  | .error failure => some failure

/-- `SlotFinish::finish`. -/
def finishRun (result : Except Failure Value) (drops : Nat → Dropped) (v : SlotInvocation)
    (w : Traced) : Traced × SlotInvocation × Except Failure Value :=
  let r := w.call (.finish (errOf result).isSome drops)
  match r.2 with
  | .ok () => (r.1, { v with stage := .done, failure := errOf result }, result)
  | .error error =>
      let failure : Failure := ⟨"cleanup", error⟩
      (r.1, { v with stage := .done, cleanup := some failure, failure := some failure },
        .error failure)

/-- `Drop for SlotFinish`, of a guard that has not completed. -/
def cancelRun (drops : Nat → Dropped) (v : SlotInvocation) (w : Traced) :
    Traced × SlotInvocation :=
  let r := w.call (.finish true drops)
  match r.2 with
  | .ok () =>
      (r.1, { v with stage := .done, failure := some ⟨"cancelled", "execution cancelled"⟩ })
  | .error error =>
      let failure : Failure := ⟨"cleanup", error⟩
      (r.1, { v with stage := .done, cleanup := some failure, failure := some failure })

/-- `SlotInvocation::close`.  An error says whether the slot is handed back with it. -/
def closeInvocation (drops : Nat → Dropped) (v : SlotInvocation) (w : Traced) :
    Traced × Except (Failure × Bool) Unit :=
  let w := dropArguments drops v.arguments w
  let r := w.call (.clear drops)
  let cleared : Option Failure := match r.2 with
    | .ok () => none
    | .error error => some ⟨"cleanup", error⟩
  match v.cleanup.or cleared with
  | some cleanup => (dropSlot drops (ownerClose drops r.1).1, .error (cleanup, false))
  | none =>
      let q := retireUnlessHealthy drops r.1
      match q.2 with
      | .error cleanup => (q.1, .error (cleanup, false))
      | .ok () =>
          match v.failure with
          | some failure => (q.1, .error (failure, true))
          | none => (q.1, .ok ())

/-- `Drop for SlotInvocation`, of an invocation that was not closed. -/
def dropInvocation (drops : Nat → Dropped) (v : SlotInvocation) (w : Traced) : Traced :=
  dropSlot drops (ownerClose drops (dropArguments drops v.arguments w)).1

/-! ## The machine -/

/-- What the owner has: the slot, an invocation of it, or an invocation borrowed by a run future,
polled to its handler or not at all. -/
inductive Holding
  | slot
  | invocation (v : SlotInvocation)
  | future (v : SlotInvocation) (polled : Bool)
  | nothing
deriving DecidableEq, Repr

/-- A context and what its owner has. -/
structure Held where
  context : System
  holding : Holding
deriving DecidableEq, Repr

/-- The steps.  `poll` is the first poll of a run future; the later ones are steps of the context
up to the one that completes.  A poll that panics drops its future. -/
inductive Event
  | context (e : Lifecycle.Event)
  | prepare (handler : String) (arguments : List Value) (budget : Nat) (drops : Nat → Dropped)
  | run
  | poll
  | complete (result : Except Failure Value) (drops : Nat → Dropped)
  | dropFuture (drops : Nat → Dropped)
  | close (drops : Nat → Dropped)
  | abandon (drops : Nat → Dropped)

/-- What a step reports. -/
inductive Report
  | context (out : Lifecycle.Output)
  | prepared
  | refused (failure : Failure) (slot : Bool)
  | future
  | pending
  | returned (result : Except Failure Value)
  | dropped
  | closed (result : Except (Failure × Bool) Unit)
  | abandoned
deriving DecidableEq

/-- The calls of a step and its report. -/
structure Output where
  calls : List Call
  report : Report

/-- The steps of tracked values, which any holder of one takes. -/
def ambient : Lifecycle.Event → Bool
  | .track .. | .poll .. | .drop .. => true
  | _ => false

/-- What the owner has after a result that says whether the slot is handed back. -/
def handedBack {α : Type} : Except (Failure × Bool) α → Holding
  | .ok _ => .slot
  | .error (_, slot) => if slot = true then .slot else .nothing

/-- One step. -/
def next (s : Held) (e : Event) : Option (Held × Output) :=
  match e, s.holding with
  | .context e, _ =>
      if ambient e = true then
        (Lifecycle.next s.context e).map fun r =>
          (⟨r.1, s.holding⟩, ⟨[(e, r.2)], .context r.2⟩)
      else none
  | .prepare handler arguments budget drops, .slot =>
      let r := prepare handler arguments budget drops ⟨s.context, []⟩
      match r.2 with
      | .ok v => some (⟨r.1.context, .invocation v⟩, ⟨r.1.calls, .prepared⟩)
      | .error p => some (⟨r.1.context, if p.2 = true then .slot else .nothing⟩,
          ⟨r.1.calls, .refused p.1 p.2⟩)
  | .run, .invocation v => some (⟨s.context, .future v false⟩, ⟨[], .future⟩)
  | .poll, .future v false =>
      let r := runUntilHandler v ⟨s.context, []⟩
      match r.2.2 with
      | none => some (⟨r.1.context, .future r.2.1 true⟩, ⟨r.1.calls, .pending⟩)
      | some failure =>
          some (⟨r.1.context, .invocation r.2.1⟩, ⟨r.1.calls, .returned (.error failure)⟩)
  | .complete result drops, .future v true =>
      let r := finishRun result drops v ⟨s.context, []⟩
      some (⟨r.1.context, .invocation r.2.1⟩, ⟨r.1.calls, .returned r.2.2⟩)
  | .dropFuture _, .future v false => some (⟨s.context, .invocation v⟩, ⟨[], .dropped⟩)
  | .dropFuture drops, .future v true =>
      let r := cancelRun drops v ⟨s.context, []⟩
      some (⟨r.1.context, .invocation r.2⟩, ⟨r.1.calls, .dropped⟩)
  | .close drops, .invocation v =>
      let r := closeInvocation drops v ⟨s.context, []⟩
      some (⟨r.1.context, handedBack r.2⟩, ⟨r.1.calls, .closed r.2⟩)
  | .abandon drops, .slot =>
      let w := dropSlot drops ⟨s.context, []⟩
      some (⟨w.context, .nothing⟩, ⟨w.calls, .abandoned⟩)
  | .abandon drops, .invocation v =>
      let w := dropInvocation drops v ⟨s.context, []⟩
      some (⟨w.context, .nothing⟩, ⟨w.calls, .abandoned⟩)
  | _, _ => none

/-- `Program::slot`. -/
def Held.new : Held where
  context := .new
  holding := .slot

/-- A slot and its owner. -/
def machine : Machine Held Event Output where
  start s := s = .new
  next := next

end Host.Slots

end Rnx
