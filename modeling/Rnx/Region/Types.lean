import Rnx.Code.Op
import Rnx.Store.State

/-!
# Regions, exits and records

The data of a native loop region (`region/mod.rs`) and of the record its runner fills in
(`region/abi.rs`).  A region holds at most 64 scalars unboxed, one `i64` cell for each frame slot
it touches, and a mask has one bit for each of them.
-/

namespace Rnx

namespace Region

/-! ## Limits -/

/-- Most distinct frame slots one region may touch. -/
def maxRegionSlots : Nat := 64

/-- Most cells of one entry buffer: the touched slots and the iterator's `next` and `end`. -/
def maxRegionCells : Nat := maxRegionSlots + 2

/-- The first virtual local: an operand from here on names a slot of an inlined callee. -/
def virtualBase : Nat := maxRegionSlots

/-- One bit for each touched slot. -/
abbrev Mask := BitVec 64

/-! ## The inference lattices -/

/-- A scalar a region holds unboxed. -/
inductive Scalar
  | i64 | bool | unit
deriving DecidableEq, Repr

/-- The types of the inference: nothing written, one scalar, a mix of them. -/
inductive Ty
  | bottom | i64 | bool | unit | top
deriving DecidableEq, Repr

namespace Ty

/-- Least upper bound. -/
def join : Ty → Ty → Ty
  | .bottom, x => x
  | x, .bottom => x
  | a, b => if a = b then a else .top

/-- The type of a scalar. -/
def of : Scalar → Ty
  | .i64 => .i64
  | .bool => .bool
  | .unit => .unit

end Ty

/-- Whether the region has written a slot since its entry. -/
inductive Written
  | no | yes | maybe
deriving DecidableEq, Repr

/-- Least upper bound: a slot written on some paths only. -/
def Written.join (a b : Written) : Written := if a = b then a else .maybe

/-- Constants written inside the region. -/
inductive Konst
  | bottom | const (n : I64) | top
deriving DecidableEq

/-- Least upper bound. -/
def Konst.join : Konst → Konst → Konst
  | .bottom, x => x
  | x, .bottom => x
  | a, b => if a = b then a else .top

/-- The abstract state of one touched slot at one program point. -/
structure SlotState where
  written : Written
  ty : Ty
  konst : Konst
deriving DecidableEq

namespace SlotState

/-- The state of every slot at the header. -/
def entry : SlotState := ⟨.no, .bottom, .bottom⟩

/-- Least upper bound, field by field. -/
def join (a b : SlotState) : SlotState :=
  ⟨a.written.join b.written, a.ty.join b.ty, a.konst.join b.konst⟩

end SlotState

/-! ## Exits -/

/-- How a run ended. -/
inductive Status
  | continue | fuel | retry | replay
deriving DecidableEq, Repr

/-- `Status::from_u32`. -/
def Status.fromU32 : Nat → Option Status
  | 1 => some .continue
  | 2 => some .fuel
  | 3 => some .retry
  | 4 => some .replay
  | _ => none

/-- Why an inlined call is handed back to the interpreter. -/
inductive ReplayReason
  | calleeFuel | calleeFault
deriving DecidableEq, Repr

/-- One statically known exit site and its write-back map. -/
structure Exit where
  status : Status
  pc : Nat
  definite : Mask
  maybe : Mask
  bools : Mask
  dynamic : Mask
  restore : Bool
  units : Mask
  replay : Option ReplayReason
  iterDone : Bool
deriving DecidableEq

/-- How a touched slot is checked at entry. -/
inductive EntryClass
  | guard (s : Scalar)
  | scalar
deriving DecidableEq

/-! ## Nodes -/

/-- Where control goes after a node. -/
inductive Target
  | node (i : Nat)
  | exit (i : Nat)
deriving DecidableEq

/-- The operations of a region. -/
inductive NodeOp
  | push (new : Nat) (aliased : Option Nat) (retry : Nat)
  | get (out index : Nat) (ty : Scalar) (retry : Nat)
  | set (index new retry : Nat)
  | vectorNext (out : Nat) (none : Target) (retry : Nat) (ty : Scalar)
  | iterNext (out : Nat) (none : Target)
  | enter (site slots : Nat)
  | arg (param src : Nat)
  | ret (out src : Nat) (ty : Scalar)
  | literal (out : Nat) (value : I64) (ty : Scalar)
  | copy (out src : Nat) (ty : Scalar)
  | arith (out : Nat) (op : Binary) (lhs rhs : Nat) (retry : Option Nat) (divisor : Option I64)
  | compare (out : Nat) (op : Binary) (lhs rhs : Nat)
  | branch (condition : Nat) (yes no : Target)
  | jump (target : Target)
deriving DecidableEq

/-- One instruction of a region: its charge, its operation and its fall-through. -/
structure Node where
  pc : Nat
  charged : Option Nat
  op : NodeOp
  next : Option Target
deriving DecidableEq

/-! ## Regions -/

/-- The pushes of an append region and the slots that may alias its vector. -/
structure Append where
  pushes : Nat
  aliases : Mask
deriving DecidableEq

/-- The one collection a region works on. -/
structure Collection where
  append : Option Append
  iteration : Bool
  slot : Nat
  ty : Scalar
  writes : Bool
  scratchBytes : Nat
deriving DecidableEq

/-- The header's iterator. -/
structure IterSpec where
  slot : Nat
deriving DecidableEq

/-- One inlined call site. -/
structure Site where
  pc : Nat
  callee : Nat
  enter : Nat
  first : Nat
  last : Nat
  fuelExit : Nat
  faultExit : Option Nat
  slots : Nat
  parameters : Nat
  ret : Scalar
deriving DecidableEq

end Region

open Region in
/-- An admitted region.  Local slot `l` is frame slot `slots[l]`. -/
structure Region where
  collection : Option Collection
  tracked : Mask
  function : Nat
  header : Nat
  headerNode : Nat
  slots : List Nat
  entry : List EntryClass
  proven : Mask
  nodes : List Node
  exits : List Exit
  iter : Option IterSpec
  calleeSlots : Nat
  sites : List Site

namespace Region

/-- The cells of the entry buffer: one for each touched slot, and the iterator's two. -/
def cells (r : Region) : Nat := r.slots.length + if r.iter.isSome then 2 else 0

/-! ## The exit record -/

/-- What a runner reports. -/
structure ExitRecord where
  fuel : U64
  written : Mask
  bools : Mask
  status : Nat
  exit : Nat
  pc : Nat
  reserved : Nat
  units : Mask
deriving DecidableEq

/-- The record a runner is handed. -/
def ExitRecord.new (fuel : U64) : ExitRecord :=
  { fuel, written := 0, bools := 0, status := 0, exit := u32Max, pc := u32Max, reserved := 0,
    units := 0 }

end Region

end Rnx
