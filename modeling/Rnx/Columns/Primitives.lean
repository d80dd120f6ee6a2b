import Rnx.Columns.Lease
import Rnx.Exec.Arithmetic

/-!
# Column primitives

The loops of `experimental_column_primitives.rs`.  `sweep` is a loop that computes one lane after
the other; `vectors` is a loop over vectors of four lanes with a scalar tail, which accumulates
an overflow word per lane and tests the sign bits once at the end.  A primitive takes its vector
form when the engine found AVX2.  An output is returned as the lanes written.
-/

namespace Rnx.Columns

open Packed

/-! ## Loops -/

/-- One lane after the other: the lanes written, and whether one of them overflowed. -/
def sweep (n : Nat) (lane : Nat → Word × Bool) : List Word × Bool :=
  ((List.range n).map fun i => (lane i).1, (List.range n).any fun i => (lane i).2)

/-- Four lanes at a time, each with a word for the accumulator, and the lanes left over one by
one.  The sign bits of the four accumulators are tested at once, so one accumulator stands for
them. -/
def vectors (n : Nat) (vector : Nat → Word × Word) (tail : Nat → Word × Bool) :
    List Word × Bool :=
  let full := n / 4 * 4
  let acc := (List.range full).foldl (fun acc i => acc ||| (vector i).2) 0
  ((List.range n).map fun i => if i < full then (vector i).1 else (tail i).1,
    acc.msb || (List.range n).any fun i => decide (full ≤ i) && (tail i).2)

/-! ## Lanes -/

/-- `i64::overflowing_add`. -/
def overflowingAdd (a b : Word) : Word × Bool := (a + b, a.saddOverflow b)

/-- `i64::overflowing_sub`. -/
def overflowingSub (a b : Word) : Word × Bool := (a - b, a.ssubOverflow b)

/-- `i64::overflowing_mul`. -/
def overflowingMul (a b : Word) : Word × Bool := (a * b, a.smulOverflow b)

/-- Whether a mask selects a lane. -/
def valid (mask : Word) (i : Nat) : Bool := (mask >>> i &&& 1) != 0

/-- All bits of a lane that a mask selects, none of another. -/
def laneMask (mask : Word) (i : Nat) : Word := 0 - (mask >>> i &&& 1)

/-- `_mm256_cmpgt_epi64` on one lane. -/
def cmpgt (a b : Word) : Word := if b.slt a then BitVec.allOnes 64 else 0

/-- `_mm256_mul_epu32` on one lane: the product of the low halves. -/
def mulEpu32 (a b : Word) : Word := (a.setWidth 32).setWidth 64 * (b.setWidth 32).setWidth 64

/-- The overflow word of a vector addition. -/
def addOverflow (a b sum : Word) : Word := (a ^^^ sum) &&& (b ^^^ sum)

/-- The overflow word of a vector subtraction. -/
def subOverflow (a b difference : Word) : Word := (a ^^^ difference) &&& (a ^^^ b)

/-- `2 * x + y` in two checked steps. -/
def overflowingFused (x y : Word) : Word × Bool :=
  let p := overflowingMul x 2
  let v := overflowingAdd p.1 y
  (v.1, p.2 || v.2)

/-- `2 * x + y` on a vector lane, with its overflow word. -/
def vectorFused (a b : Word) : Word × Word :=
  let product := a + a
  let sum := product + b
  (sum, (a ^^^ product) ||| addOverflow product b sum)

/-! ## The engine -/

/-- `Engine`. -/
structure Engine where
  avx2 : Bool

/-- `Engine::new`: vectors where the processor has them and the caller allows them. -/
def Engine.new (detected forceScalar : Bool) : Engine := ⟨!forceScalar && detected⟩

/-- `FloatOp`. -/
inductive FloatOp
  | add | sub | mul
deriving DecidableEq, Repr

/-- A float operation on bit patterns. -/
def FloatOp.apply (F : FloatOps) : FloatOp → Word → Word → Word
  | .add, a, b => (F.add ⟨a⟩ ⟨b⟩).bits
  | .sub, a, b => (F.sub ⟨a⟩ ⟨b⟩).bits
  | .mul, a, b => (F.mul ⟨a⟩ ⟨b⟩).bits

/-- `FloatRhs`. -/
inductive FloatRhs
  | addConstant (c : Word)
  | column (op : FloatOp) (y : List Word)

/-- `checked_mul`. -/
def checkedMul (x y : List Word) : List Word × Bool :=
  sweep x.length fun i => overflowingMul (x.getD i 0) (y.getD i 0)

namespace Engine

/-- `simd::add_constant`: the limit a lane must not pass replaces the overflow word. -/
def addConstantVectors (x : List Word) (c : Word) : List Word × Bool :=
  vectors x.length
    (fun i =>
      let a := x.getD i 0
      (a + c, if 0 ≤ c.toInt then cmpgt a (BitVec.intMax 64 - c) else cmpgt (BitVec.intMin 64 - c) a))
    fun i => overflowingAdd (x.getD i 0) c

/-- `add` and `add_uninit`. -/
def add (e : Engine) (x : List Word) (c : Word) : List Word × Bool :=
  if e.avx2 then addConstantVectors x c
  else sweep x.length fun i => overflowingAdd (x.getD i 0) c

/-- `add_pair`. -/
def addPair (e : Engine) (x y : List Word) : List Word × Bool :=
  let tail := fun i => overflowingAdd (x.getD i 0) (y.getD i 0)
  if e.avx2 then
    vectors x.length
      (fun i =>
        let a := x.getD i 0
        let b := y.getD i 0
        (a + b, addOverflow a b (a + b)))
      tail
  else sweep x.length tail

/-- `sub_pair`. -/
def subPair (e : Engine) (x y : List Word) : List Word × Bool :=
  let tail := fun i => overflowingSub (x.getD i 0) (y.getD i 0)
  if e.avx2 then
    vectors x.length
      (fun i =>
        let a := x.getD i 0
        let b := y.getD i 0
        (a - b, subOverflow a b (a - b)))
      tail
  else sweep x.length tail

/-- A lane of `x`, or the neutral value where the mask does not select it. -/
def neutral (mask : Option Word) (x : List Word) (c : Word) (i : Nat) : Word :=
  match mask with
  | none => x.getD i 0
  | some m => if valid m i then x.getD i 0 else c

/-- The same lane as the vector loop selects it, from the mask shifted to its vector. -/
def neutralVector (mask : Option Word) (x : List Word) (c : Word) (i : Nat) : Word :=
  match mask with
  | none => x.getD i 0
  | some m =>
      let lane : Word := 1 <<< (i % 4)
      if (m >>> (i / 4 * 4) &&& lane) = lane then x.getD i 0 else c

/-- `add_words_constant`. -/
def addWordsConstant (e : Engine) (x : List Word) (c : Word) (mask : Option Word) :
    List Word × Bool :=
  let tail := fun i => overflowingAdd (neutral mask x 0 i) c
  if e.avx2 then
    vectors x.length
      (fun i =>
        let a := neutralVector mask x 0 i
        (a + c, addOverflow a c (a + c)))
      tail
  else sweep x.length tail

/-- `sub_constant`. -/
def subConstant (e : Engine) (reversed : Bool) (x : List Word) (c : Word) (mask : Option Word) :
    List Word × Bool :=
  let tail := fun i =>
    let a := neutral mask x c i
    if reversed then overflowingSub c a else overflowingSub a c
  if e.avx2 then
    vectors x.length
      (fun i =>
        let v := neutralVector mask x c i
        let a := if reversed then c else v
        let b := if reversed then v else c
        (a - b, subOverflow a b (a - b)))
      tail
  else sweep x.length tail

/-- The constants the vector multiplication is written for. -/
def multiplies (c : Word) : Bool := c != 0 && decide (c.toInt.natAbs < 2 ^ 32)

/-- The least factor whose product with `c` fits. -/
def mulLow (c : Word) : Word :=
  BitVec.ofInt 64 (max (if 0 < c.toInt then (-2 ^ 63 : Int).tdiv c.toInt
    else (2 ^ 63 - 1 : Int).tdiv c.toInt) (-2 ^ 63))

/-- The greatest factor whose product with `c` fits. -/
def mulHigh (c : Word) : Word :=
  BitVec.ofInt 64 (min (if 0 < c.toInt then (2 ^ 63 - 1 : Int).tdiv c.toInt
    else (-2 ^ 63 : Int).tdiv c.toInt) (2 ^ 63 - 1))

/-- The product of a lane with a short constant, from the products of its halves. -/
def shortProduct (a c : Word) : Word :=
  let cv : Word := BitVec.ofNat 64 c.toInt.natAbs
  let product := mulEpu32 a cv + mulEpu32 (a >>> 32) cv <<< 32
  if c.toInt < 0 then 0 - product else product

/-- `mul_constant`. -/
def mulConstant (e : Engine) (x : List Word) (c : Word) : List Word × Bool :=
  let tail := fun i => overflowingMul (x.getD i 0) c
  if e.avx2 && multiplies c then
    vectors x.length
      (fun i =>
        let a := x.getD i 0
        (shortProduct a c, cmpgt (mulLow c) a ||| cmpgt a (mulHigh c)))
      tail
  else sweep x.length tail

/-- `fused` and `fused_uninit`. -/
def fused (e : Engine) (x y : List Word) : List Word × Bool :=
  let tail := fun i => overflowingFused (x.getD i 0) (y.getD i 0)
  if e.avx2 then vectors x.length (fun i => vectorFused (x.getD i 0) (y.getD i 0)) tail
  else sweep x.length tail

/-- A lane whose value and fault count only where the mask selects it. -/
def maskedLane (mask : Word) (i : Nat) (lane : Word × Bool) : Word × Bool :=
  (if valid mask i then lane.1 else 0, lane.2 && valid mask i)

/-- The same lane on a vector. -/
def maskedVector (mask : Word) (i : Nat) (lane : Word × Word) : Word × Word :=
  (lane.1 &&& laneMask mask i, lane.2 &&& laneMask mask i)

/-- `masked_add`. -/
def maskedAdd (e : Engine) (x : List Word) (c : Word) (mask : Word) : List Word × Bool :=
  let tail := fun i => maskedLane mask i (overflowingAdd (x.getD i 0) c)
  if e.avx2 then
    vectors x.length
      (fun i =>
        let a := x.getD i 0
        maskedVector mask i (a + c, addOverflow a c (a + c)))
      tail
  else sweep x.length tail

/-- `masked_fused`. -/
def maskedFused (e : Engine) (x y : List Word) (mask : Word) : List Word × Bool :=
  let tail := fun i => maskedLane mask i (overflowingFused (x.getD i 0) (y.getD i 0))
  if e.avx2 then
    vectors x.length (fun i => maskedVector mask i (vectorFused (x.getD i 0) (y.getD i 0))) tail
  else sweep x.length tail

/-- `zero_i64`: both engines clear the lanes the mask does not select with the same word. -/
def zeroI64 (out : List Word) (mask : Word) : List Word :=
  (List.range out.length).map fun i => out.getD i 0 &&& laneMask mask i

/-- `floats` and `floats_uninit`: vector lanes add as scalars do. -/
def floats (F : FloatOps) (x : List Word) (c : Word) : List Word :=
  (List.range x.length).map fun i => FloatOp.add.apply F (x.getD i 0) c

/-- `float_pair` and `float_pair_uninit`. -/
def floatPair (F : FloatOps) (op : FloatOp) (x y : List Word) : List Word :=
  (List.range x.length).map fun i => op.apply F (x.getD i 0) (y.getD i 0)

/-- A lane of `masked_floats` before the mask. -/
def rhsLane (F : FloatOps) (x : List Word) (rhs : FloatRhs) (i : Nat) : Word :=
  match rhs with
  | .addConstant c => FloatOp.add.apply F (x.getD i 0) c
  | .column op y => op.apply F (x.getD i 0) (y.getD i 0)

/-- The mask of a lane of `masked_floats`, one mask word for 64 lanes. -/
def floatMask (masks : List Word) (i : Nat) : Word := laneMask (masks.getD (i / 64) 0) (i % 64)

/-- The same mask as the loop over 16 lanes compares it from the word shifted to its vectors. -/
def floatMaskVector (masks : List Word) (i : Nat) : Word :=
  let base := i / 16 * 16
  let bits := masks.getD (base / 64) 0 >>> (base % 64)
  let lane : Word := 1 <<< (i % 16)
  if (bits &&& lane) = lane then BitVec.allOnes 64 else 0

/-- `masked_floats`. -/
def maskedFloats (e : Engine) (F : FloatOps) (x : List Word) (rhs : FloatRhs)
    (masks : List Word) : List Word :=
  let full := x.length / 16 * 16
  (List.range x.length).map fun i =>
    rhsLane F x rhs i &&&
      (if e.avx2 ∧ i < full then floatMaskVector masks i else floatMask masks i)

/-- `bits`. -/
def bits (x : List (BitVec 8)) : List (BitVec 8) := x.map (~~~·)

end Engine

end Rnx.Columns
