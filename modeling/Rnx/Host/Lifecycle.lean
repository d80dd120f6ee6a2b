import Mathlib.Data.List.Sort
import Rnx.Lib.Transition

/-!
# Tracked operations

`lifecycle.rs`: the operations an extension tracks in one enabled context.  A tracked value owns
its native future through a cell; the registry of the context refers to the owners weakly, by a
key, and each owner carries the generation of the execution that last polled it.  A failed
execution revokes the operations it polled, a reset or teardown revokes all of them, and dropping
a future may panic, which is caught and recorded as the failure of the context.

The machine takes the steps of the context and of its tracked values in any order.  What a future
does when it is polled or dropped is part of the step.
-/

namespace Rnx

namespace Host.Lifecycle

/-- `u64::MAX`. -/
def maxIdentity : Nat := 0xffffffffffffffff

/-- `CANCELLED`. -/
def cancelled : String := "operation cancelled"

/-- `RETIRED`. -/
def retiredText : String := "operation scope belongs to a retired context"

/-- `u64::checked_add(1)`. -/
def checkedSucc (n : Nat) : Option Nat := if n < maxIdentity then some (n + 1) else none

/-! ## The context and its tracked values -/

/-- `Owner`: whether the cell holds a future, and the identity of the operation. -/
structure Owner where
  future : Bool
  name : String
  stamp : Nat
  key : Nat
deriving DecidableEq, Repr

/-- `Tracked`: an operation, or the error it was refused with. -/
inductive Tracked
  | owner (o : Owner)
  | error (message : String)
deriving DecidableEq, Repr

/-- `State`.  `owners` is the set of keys of the registry. -/
structure State where
  generation : Nat
  active : Bool
  next : Nat
  retired : Bool
  owners : List Nat
  failure : Option String
deriving DecidableEq, Repr

/-- A context and the values tracked in it, in the order they were made; dropped ones leave a
gap. -/
structure System where
  state : State
  tracked : List (Option Tracked)
deriving DecidableEq, Repr

/-- What dropping a future comes to: it returns, or panics with a reason. -/
abbrev Dropped := Option String

/-- The failure text of a cleanup. -/
def cleanupText (name reason : String) : String :=
  "extension `" ++ name ++ "` lifecycle cleanup " ++ reason

/-- `Owner::dispose` of the future taken from the cell, when there was one. -/
def dispose (o : Owner) (taken : Bool) (dropped : Dropped) (s : State) : State :=
  let s := { s with owners := s.owners.filter (· != o.key) }
  match taken, dropped with
  | true, some reason =>
      { s with failure := some (s.failure.getD (cleanupText o.name reason)) }
  | _, _ => s

/-- `Owner::revoke`: the context, and the owner without its future. -/
def Owner.revoke (o : Owner) (dropped : Dropped) (s : State) : State × Owner :=
  (dispose o o.future dropped s, { o with future := false })

/-- `State::revoke`, over the tracked values in the order of their keys.  `which` picks the owners
to revoke among those the registry refers to. -/
def revokeEach (which : Owner → Bool) (drops : Nat → Dropped) :
    List (Option Tracked) → State → State × List (Option Tracked)
  | [], s => (s, [])
  | some (.owner o) :: rest, s =>
      if which o = true then
        let r := o.revoke (drops o.key) s
        let q := revokeEach which drops rest r.1
        (q.1, some (.owner r.2) :: q.2)
      else
        let q := revokeEach which drops rest s
        (q.1, some (.owner o) :: q.2)
  | t :: rest, s =>
      let q := revokeEach which drops rest s
      (q.1, t :: q.2)

/-- `State::revoke`. -/
def revoke (all : Bool) (drops : Nat → Dropped) (s : System) : System :=
  let r := revokeEach (fun o => s.state.owners.contains o.key &&
    (all || o.stamp == s.state.generation)) drops s.tracked s.state
  ⟨r.1, r.2⟩

/-- `State::retire`. -/
def retire (drops : Nat → Dropped) (s : System) : System :=
  revoke true drops { s with state := { s.state with retired := true } }

/-- `State::result`. -/
def result (s : State) : Except String Unit :=
  match s.failure with
  | some error => .error error
  | none => .ok ()

/-! ## The steps of the context -/

/-- `Lifecycle::begin`. -/
def begin (s : State) : State × Except String Unit :=
  match result s with
  | .error error => (s, .error error)
  | .ok () =>
      if s.retired = true then (s, .error retiredText)
      else
        match checkedSucc s.generation with
        | none => (s, .error "execution generation exhausted")
        | some generation => ({ s with generation := generation, active := true }, .ok ())

/-- Retire a context that has failed, and report its failure. -/
def settle (drops : Nat → Dropped) (s : System) : System × Except String Unit :=
  let s := if s.state.failure.isSome = true then retire drops s else s
  (s, result s.state)

/-- `Lifecycle::finish`. -/
def finish (failed : Bool) (drops : Nat → Dropped) (s : System) : System × Except String Unit :=
  let idle := { s with state := { s.state with active := false } }
  settle drops (if s.state.active = true ∧ failed = true then revoke false drops idle else idle)

/-- `Lifecycle::clear`. -/
def clear (drops : Nat → Dropped) (s : System) : System × Except String Unit :=
  settle drops (revoke true drops s)

/-- `Lifecycle::close`. -/
def close (drops : Nat → Dropped) (s : System) : System × Except String Unit :=
  let s := retire drops s
  (s, result s.state)

/-! ## The steps of a tracked value -/

/-- The error of a refused operation, after its future has been dropped. -/
def refusal (error name : String) (dropped : Dropped) : String :=
  match dropped with
  | none => error
  | some reason => error ++ "; extension `" ++ name ++ "` lifecycle cleanup " ++ reason

/-- `Scope::track`.  `here` says whether the scope is used on its own thread; `dropped` is what
dropping the future comes to where it is not admitted. -/
def track (name : String) (here : Bool) (dropped : Dropped) (s : State) : State × Tracked :=
  if here = false then
    (s, .error (refusal "operation scope used on the wrong thread" name dropped))
  else if s.retired = true then (s, .error (refusal retiredText name dropped))
  else
    let o : Owner := ⟨true, name, 0, s.next⟩
    match checkedSucc s.next with
    | some next =>
        ({ s with next := next, owners := s.owners.orderedInsert (· ≤ ·) o.key }, .owner o)
    | none => (dispose o true dropped s, .error "operation identity exhausted")

/-- What a native future answers. -/
inductive Poll
  | pending
  | ready (result : Except String Unit)
deriving DecidableEq

/-- `Tracked::poll`: the context, the tracked value, whether the native future was polled, and the
answer. -/
def poll (t : Tracked) (native : Poll) (dropped : Dropped) (s : State) :
    State × Tracked × Bool × Poll :=
  match t with
  | .error message => (s, t, false, .ready (.error message))
  | .owner o =>
      if s.retired = true then
        let r := o.revoke dropped s
        (r.1, .owner r.2, false, .ready (.error cancelled))
      else
        let o := { o with stamp := s.generation }
        if o.future = false then (s, .owner o, false, .ready (.error cancelled))
        else
          match native with
          | .pending => (s, .owner o, true, .pending)
          | .ready result =>
              (dispose o true dropped s, .owner { o with future := false }, true, .ready result)

/-- Drop of a tracked value. -/
def dropTracked (t : Tracked) (dropped : Dropped) (s : State) : State :=
  match t with
  | .error _ => s
  | .owner o => dispose o o.future dropped s

/-! ## The machine -/

/-- The steps. -/
inductive Event
  | begin
  | finish (failed : Bool) (drops : Nat → Dropped)
  | clear (drops : Nat → Dropped)
  | close (drops : Nat → Dropped)
  | track (name : String) (here : Bool) (dropped : Dropped)
  | poll (i : Nat) (native : Poll) (dropped : Dropped)
  | drop (i : Nat) (dropped : Dropped)

/-- What a step reports. -/
inductive Output
  | done (result : Except String Unit)
  | tracked (t : Tracked)
  | polled (native : Bool) (answer : Poll)
  | dropped
deriving DecidableEq

/-- The value tracked at `i`, unless it was dropped. -/
def System.at? (s : System) (i : Nat) : Option Tracked := s.tracked[i]?.join

/-- One step. -/
def next (s : System) : Event → Option (System × Output)
  | .begin =>
      let r := begin s.state
      some (⟨r.1, s.tracked⟩, .done r.2)
  | .finish failed drops =>
      let r := finish failed drops s
      some (r.1, .done r.2)
  | .clear drops =>
      let r := clear drops s
      some (r.1, .done r.2)
  | .close drops =>
      let r := close drops s
      some (r.1, .done r.2)
  | .track name here dropped =>
      let r := track name here dropped s.state
      some (⟨r.1, s.tracked ++ [some r.2]⟩, .tracked r.2)
  | .poll i native dropped =>
      (s.at? i).map fun t =>
        let r := poll t native dropped s.state
        (⟨r.1, s.tracked.set i (some r.2.1)⟩, .polled r.2.2.1 r.2.2.2)
  | .drop i dropped =>
      (s.at? i).map fun t => (⟨dropTracked t dropped s.state, s.tracked.set i none⟩, .dropped)

/-- `Lifecycle::new` of an enabled context. -/
def System.new : System where
  state := ⟨0, false, 1, false, [], none⟩
  tracked := []

/-- A context and its tracked values. -/
def machine : Machine System Event Output where
  start s := s = .new
  next := next

end Host.Lifecycle

end Rnx
