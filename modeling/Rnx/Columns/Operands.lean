import Rnx.Columns.Plan

/-!
# Operands and intermediate destinations

`column/operands.rs`: the computed nodes of a plan run over a block one after the other.  A node
reads the inputs, the constants, the slots of a shared scratch and the output, and writes its
lanes into its own slot or into the output.  A checked access that fails unwinds.

Within a slice lanes are read by total functions: every slice of words is cut to the length of the
block before it is read, and a bit range is checked once for the lanes of the block.
-/

namespace Rnx.Columns

open Packed

/-- `BLOCK`. -/
def block : Nat := 1024

/-- `BitSlice::bit`, of a bit of the range. -/
def BitSlice.bit (s : BitSlice) (i : Nat) : Bool := bitAt s.bytes (s.offset + i)

/-! ## Values -/

/-- `Value`: the lanes of an operand. -/
inductive Lanes
  | words (values : List Word)
  | bits (values : BitSlice) (start : Nat)
  | constant (value : Word)

/-- `Value::at`. -/
def Lanes.at (x : Lanes) (i : Nat) : Word :=
  match x with
  | .words v => v.getD i 0
  | .bits v start => bool (v.bit (start + i))
  | .constant c => c

/-- `ColumnValues`: the output. -/
inductive ColumnValues
  | i64 (values : List Word)
  | f64 (values : List Word)
  | bool (bytes : List (BitVec 8))

/-- `input_value`. -/
def inputValue (values : ColumnSlice) (offset n : Nat) : Except Stop Lanes :=
  match values with
  | .i64 v => do
      let part ← expect (slice? v offset n)
      .ok (.words part)
  | .f64 v => do
      let part ← expect (slice? v offset n)
      .ok (.words part)
  -- Every kernel reads the first `n` bits, so the checks of `bit` are made together.
  | .bool v => if n = 0 ∨ offset + n ≤ v.len then .ok (.bits v offset) else .error .panic

/-- `output_value`. -/
def outputValue (values : ColumnValues) (row n : Nat) : Except Stop Lanes :=
  match values with
  | .i64 v => do
      let part ← expect (slice? v row n)
      .ok (.words part)
  | .f64 v => do
      let part ← expect (slice? v row n)
      .ok (.words part)
  | .bool v =>
      match BitSlice.new v row n with
      | .ok part => .ok (.bits part 0)
      | .error _ => .error .panic

/-! ## Destinations -/

/-- `Destination::put` on packed bits. -/
def Destination.put (bytes : List (BitVec 8)) (bit : Nat) (value : Word) : Except Stop (List (BitVec 8)) :=
  match bytes[bit / 8]? with
  | none => .error .panic
  | some byte =>
      let mask := (1 : BitVec 8) <<< (bit % 8)
      let set := if value ≠ 0 then (1 : BitVec 8) <<< (bit % 8) else 0
      .ok (bytes.set (bit / 8) (byte &&& ~~~mask ||| set))

/-- Lanes put one after the other. -/
def putAll (bytes : List (BitVec 8)) (bit : Nat) : List Word → Except Stop (List (BitVec 8))
  | [] => .ok bytes
  | lane :: lanes => do
      let bytes ← Destination.put bytes bit lane
      putAll bytes (bit + 1) lanes

/-- Lanes written to the output from a row on. -/
def writeOutput (values : ColumnValues) (row : Nat) (lanes : List Word) :
    Except Stop ColumnValues :=
  match values with
  | .i64 v => do
      let v ← expect (splice? v row lanes)
      .ok (.i64 v)
  | .f64 v => do
      let v ← expect (splice? v row lanes)
      .ok (.f64 v)
  | .bool v => do
      let v ← putAll v row lanes
      .ok (.bool v)

/-- Whether the output is words. -/
def ColumnValues.isWords : ColumnValues → Bool
  | .bool _ => false
  | _ => true

/-! ## Loops -/

/-- Whether a mask selects a lane; without a mask every lane is selected. -/
def selects (mask : Option Word) (i : Nat) : Bool :=
  match mask with
  | none => true
  | some m => valid m i

/-- `apply`: the lanes put, null lanes as zero, and whether a selected lane failed. -/
def apply (n : Nat) (mask : Option Word) (f : Nat → Word × Bool) : List Word × Bool :=
  sweep n fun i => (if selects mask i then (f i).1 else 0, (f i).2 && selects mask i)

/-- `Src::check_len`. -/
def checkLen (x : Lanes) (n : Nat) : Bool :=
  match x with
  | .words v => v.length = n
  | _ => true

/-- `integer_kernel` and `integer_loop`, on slices and constants. -/
def integerKernel (F : FloatOps) (op : Binary) (x y : Lanes) (n : Nat) (mask : Option Word) :
    Except Stop (List Word × Bool) :=
  match x, y with
  | .bits .., _ | _, .bits .. => .error .panic
  | x, y =>
      if ¬(checkLen x n ∧ checkLen y n) then .error .panic
      else if mask.isSome ∧ 64 < n then .error .panic
      else .ok (apply n mask fun i => binary F op .i64 (x.at i) (y.at i))

/-- `constant_optimistic`. -/
def constantOptimistic (e : Engine) (op : Binary) (x y : Lanes) (mask : Word) :
    Option (List Word × Bool) :=
  match op, x, y with
  | .add, .words a, .constant c | .add, .constant c, .words a =>
      some (e.addWordsConstant a c (some mask))
  | .sub, .words a, .constant c => some (e.subConstant false a c (some mask))
  | .sub, .constant c, .words a => some (e.subConstant true a c (some mask))
  | _, _, _ => none

/-- The kernels tried on all lanes of a masked block, null ones included. -/
def optimistic (e : Engine) (op : Binary) (x y : Lanes) (mask : Word) :
    Option (List Word × Bool) :=
  match op, x, y with
  | .add, .words a, .words b => some (e.addPair a b)
  | .sub, .words a, .words b => some (e.subPair a b)
  | .mul, .words a, .constant c | .mul, .constant c, .words a =>
      if Engine.multiplies c then some (e.mulConstant a c)
      else constantOptimistic e op x y mask
  | _, _, _ => constantOptimistic e op x y mask

/-- The kernels of a block without nulls: the lanes, the fault, and whether vectors were used. -/
def dense (e : Engine) (op : Binary) (x y : Lanes) : Option (List Word × Bool × Bool) :=
  match op, x, y with
  | .add, .words a, .words b =>
      let r := e.addPair a b
      some (r.1, r.2, e.avx2)
  | .mul, .words a, .words b =>
      let r := checkedMul a b
      some (r.1, r.2, false)
  | .mul, .words a, .constant c | .mul, .constant c, .words a =>
      let r := e.mulConstant a c
      some (r.1, r.2, e.avx2 && Engine.multiplies c)
  | _, _, _ => none

/-- The operators of `i64` that may overflow. -/
def isArithmetic : Binary → Bool
  | .add | .sub | .mul => true
  | _ => false

/-- The part of `operation` after the kernels. -/
def operationScalar (F : FloatOps) (op : Binary) (ty : ColumnType) (x y : Lanes) (words : Bool)
    (n : Nat) (mask : Option Word) : Except Stop (List Word × Bool × Bool) :=
  if ty = .i64 ∧ isArithmetic op ∧ words then do
    let r ← integerKernel F op x y n mask
    .ok (r.1, r.2, false)
  else
    let r := apply n mask fun i => binary F op ty (x.at i) (y.at i)
    .ok (r.1, r.2, false)

/-- `operation`: the lanes for a destination of words or of bits, whether a lane failed, and
whether vectors were used. -/
def operation (F : FloatOps) (e : Engine) (op : Binary) (ty : ColumnType) (x y : Lanes)
    (words : Bool) (n : Nat) (mask : Option Word) : Except Stop (List Word × Bool × Bool) :=
  match mask with
  | some m =>
      if ty = .i64 ∧ words ∧ e.avx2 then
        match optimistic e op x y m with
        | some (lanes, flagged) =>
            -- A flagged node is rescanned with the mask.
            if flagged then do
              let r ← integerKernel F op x y n mask
              .ok (r.1, r.2, true)
            else .ok (lanes, false, true)
        | none => operationScalar F op ty x y words n mask
      else operationScalar F op ty x y words n mask
  | none =>
      if ty = .i64 ∧ words then
        match dense e op x y with
        | some r => .ok r
        | none => operationScalar F op ty x y words n mask
      else operationScalar F op ty x y words n mask

/-! ## Sources -/

/-- What a block reads and writes: the current chunk of every column with the block's offset in
it, the first row, and the number of rows. -/
structure Block where
  inputs : List (ColumnSlice × Nat)
  row : Nat
  n : Nat

/-- `Sources`: the scratch without the destination slot. -/
structure Sources where
  block : Block
  before : List Word
  after : List Word
  split : Nat
  output : Option Lanes

/-- `Sources::get`. -/
def Sources.get (s : Sources) (operand : Operand) : Except Stop Lanes :=
  match operand with
  | .input i => do
      let (values, offset) ← expect s.block.inputs[i]?
      inputValue values offset s.block.n
  | .constant v => .ok (.constant v)
  | .output => expect s.output
  | .slot slot =>
      let start := slot * Columns.block
      if start < s.split then do
        let part ← expect (slice? s.before start s.block.n)
        .ok (.words part)
      else if start < s.split + Columns.block then .error .panic
      else do
        let part ← expect (slice? s.after (start - s.split - Columns.block) s.block.n)
        .ok (.words part)

/-- The value of a computed node. -/
def compute (F : FloatOps) (e : Engine) (nodes : List Node) (s : Sources) (words : Bool)
    (mask : Option Word) (step : Step) : Except Stop (List Word × Bool × Bool) :=
  match step with
  | .not a => do
      let x ← s.get (nodeAt nodes a).operand
      let r := apply s.block.n mask fun i => (bool (x.at i == 0), false)
      .ok (r.1, r.2, false)
  | .binary op a b => do
      let x ← s.get (nodeAt nodes a).operand
      let y ← s.get (nodeAt nodes b).operand
      operation F e op (nodeAt nodes a).ty x y words s.block.n mask
  | _ => .error .panic

/-! ## Execution -/

/-- What the loop over the nodes keeps. -/
structure Running where
  scratch : List Word
  values : ColumnValues
  failed : Bool
  simd : Bool

/-- An iteration of the loop over the nodes. -/
def executeNode (F : FloatOps) (e : Engine) (nodes : List Node) (b : Block) (mask : Option Word)
    (s : Running) (node : Node) : Except Stop Running :=
  if ¬node.step.computes then .ok s
  else
    match node.operand with
    | .slot slot =>
        let split := slot * block
        if s.scratch.length < split + block ∨ block < b.n then .error .panic
        else do
          let output ← outputValue s.values b.row b.n
          let sources : Sources :=
            ⟨b, s.scratch.take split, s.scratch.drop (split + block), split, some output⟩
          let r ← compute F e nodes sources true mask node.step
          let scratch ← expect (splice? s.scratch split r.1)
          .ok ⟨scratch, s.values, s.failed || r.2.1, s.simd || r.2.2⟩
    | .output => do
        let sources : Sources := ⟨b, s.scratch, [], s.scratch.length, none⟩
        let r ← compute F e nodes sources s.values.isWords mask node.step
        let values ← writeOutput s.values b.row r.1
        .ok ⟨s.scratch, values, s.failed || r.2.1, s.simd || r.2.2⟩
    | _ => .error .panic

/-- The write of a result that no node computes. -/
def executeResult (p : PreparedColumn) (b : Block) (mask : Option Word) (s : Running) :
    Except Stop ColumnValues :=
  match (nodeAt p.nodes p.result).operand with
  | .output => .ok s.values
  | operand => do
      let x ← Sources.get ⟨b, s.scratch, [], s.scratch.length, none⟩ operand
      writeOutput s.values b.row (apply b.n mask fun i => (x.at i, false)).1

/-- The null lanes of an `i64` output, cleared after all uses of the output. -/
def clearNulls (b : Block) (mask : Option Word) (values : ColumnValues) :
    Except Stop ColumnValues :=
  match mask, values with
  | some m, .i64 v => do
      let part ← expect (slice? v b.row b.n)
      if 64 < b.n then .error .panic
      else do
        let v ← expect (splice? v b.row (Engine.zeroI64 part m))
        .ok (.i64 v)
  | _, values => .ok values

/-- `execute` and `execute_inner`: the scratch and the output of a block, whether a lane failed,
and whether vectors were used. -/
def execute (F : FloatOps) (e : Engine) (p : PreparedColumn) (b : Block) (mask : Option Word)
    (scratch : List Word) (values : ColumnValues) : Except Stop Running := do
  let s ← p.nodes.foldlM (executeNode F e p.nodes b mask) ⟨scratch, values, false, false⟩
  let values ← executeResult p b mask s
  let values ← clearNulls b mask values
  .ok { s with values := values }

end Rnx.Columns
