import Rnx.Code.Program
import Rnx.Exec.Arithmetic
import Rnx.Store.Native

/-!
# The interpreter on straight-line scalar code

The dispatch loop of `execute.rs` for the instructions a straight-line function over scalars can
reach: one charge before a charged instruction, slots read and written in the function's frame,
and the value of the return instruction with the fuel that is left.  Retaining and releasing the
scalars of such a frame does nothing (`retain_scalar`, `Store.releaseSlot_scalar`), so the store
does not appear.
-/

namespace Rnx.Exec

/-! ## Scalars and the store -/

lemma retain_scalar {v : Value} (h : v.isHeap = false) : Store.retain v = pure () := by
  cases v <;> first | rfl | cases h

/-! ## The loop -/

/-- How the interpretation of a row ends without a value. -/
inductive Trap
  | primitive (e : PrimitiveError)
  | fuelExhausted
  | invalidCode
  | frameCapacity
  | argumentCount (given expected : Nat)
  | outside
deriving DecidableEq

/-- A slot of the frame. -/
def slot (slots : List Value) (n : Nat) : Except Trap Value := okOr slots[n]? .invalidCode

/-- `put`. -/
def put (slots : List Value) (n : Nat) (v : Value) : Except Trap (List Value) :=
  if n < slots.length then .ok (slots.set n v) else .error .invalidCode

/-- The charge that rides a charged instruction. -/
def charge (charged : Bool) (fuel : Nat) : Except Trap Nat :=
  if charged then (if fuel = 0 then .error .fuelExhausted else .ok (fuel - 1)) else .ok fuel

/-- What an instruction does next. -/
inductive Next
  | go (slots : List Value)
  | done (value : Value)

/-- The arms of the dispatch a straight-line function over scalars reaches. -/
def arm (F : FloatOps) (slots : List Value) : Op → Except Trap Next
  | .literal out value => (put slots out value).map .go
  | .copy out value => do
      let v ← slot slots value
      (put slots out v).map .go
  | .release value => (put slots value .unit).map .go
  | .unary out op value => do
      let v ← slot slots value
      let v ← (arithmeticUnary F op v).mapError .primitive
      (put slots out v).map .go
  | .binary out op lhs rhs => do
      let left ← slot slots lhs
      let right ← slot slots rhs
      let v ← (operate F op left right).mapError .primitive
      (put slots out v).map .go
  | .returnValue value => (slot slots value).map .done
  | _ => .error .outside

/-- The loop, from the instructions at and after the current pc. -/
def loop (F : FloatOps) : List CachedInstruction → List Value → Nat → Except Trap (Value × Nat)
  | [], _, _ => .error .invalidCode
  | i :: code, slots, fuel => do
      let fuel ← charge i.charged fuel
      let next ← arm F slots i.op
      match next with
      | .go slots => loop F code slots fuel
      | .done value => .ok (value, fuel)

/-- The loop, with the pc of the instruction that ended it in its traps. -/
def loopAt (F : FloatOps) :
    List CachedInstruction → List Value → Nat → Nat → Except (Trap × Nat) (Value × Nat)
  | [], _, _, pc => .error (.invalidCode, pc)
  | i :: code, slots, fuel, pc => do
      let fuel ← (charge i.charged fuel).mapError (·, pc)
      let next ← (arm F slots i.op).mapError (·, pc)
      match next with
      | .go slots => loopAt F code slots fuel (pc + 1)
      | .done value => .ok (value, fuel)

/-- Without the pc it is the loop. -/
lemma loopAt_mapError (F : FloatOps) (code : List CachedInstruction) (slots : List Value)
    (fuel pc : Nat) : (loopAt F code slots fuel pc).mapError Prod.fst = loop F code slots fuel := by
  induction code generalizing slots fuel pc with
  | nil => rfl
  | cons i code ih =>
    rw [loopAt, loop]
    rcases charge i.charged fuel with e | fuel
    · rfl
    · rcases harm : arm F slots i.op with e | next
      · rfl
      · cases next with
        | go slots => exact ih slots fuel (pc + 1)
        | done value => rfl

/-- `ExecutorLimits`. -/
structure ExecutorLimits where
  frames : Nat
  slots : Nat

/-- `invoke` on one row: the frame with its arguments, then the loop. -/
def invoke (F : FloatOps) (limits : ExecutorLimits) (f : Function) (args : List Value)
    (fuel : Nat) : Except Trap (Value × Nat) :=
  if args.length ≠ f.parameters then .error (.argumentCount args.length f.parameters)
  else if limits.frames < 1 ∨ limits.slots < f.slots then .error .frameCapacity
  else if f.slots < args.length then .error .invalidCode
  else loop F f.cached (args ++ List.replicate (f.slots - args.length) .unit) fuel

/-- The rows one after the other, on what fuel the earlier ones left. -/
def invokeAll (F : FloatOps) (limits : ExecutorLimits) (f : Function) :
    List (List Value) → Nat → Except Trap (List Value × Nat)
  | [], fuel => .ok ([], fuel)
  | args :: rows, fuel => do
      let (value, fuel) ← invoke F limits f args fuel
      let (values, fuel) ← invokeAll F limits f rows fuel
      .ok (value :: values, fuel)

end Rnx.Exec
