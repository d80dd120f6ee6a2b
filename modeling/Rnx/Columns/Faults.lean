import Rnx.Columns.Overflows

/-!
# Kernels and the rescan of a block

One iteration of the three traversals: `run.rs`'s `run` on a block without nulls, `masked.rs`'s
`run_masked` on a mask word, and `flat.rs`'s `run_flat` on a single chunk.  Each runs a loop of
its own for the shapes of `Fast`, the general executor otherwise, and `first_fault` on a block
whose kernel raised its flag.

The shapes that cannot overflow have masked loops that raise no flag; they are not modelled here.
-/

namespace Rnx.Columns

open Packed

/-! ## The rescan -/

/-- `run.rs`'s `input`. -/
def input (values : ColumnSlice) (index : Nat) : Except Stop Word :=
  match values with
  | .i64 v => expect v[index]?
  | .f64 v => expect v[index]?
  | .bool v => do
      let bit ← expect (v.get index)
      .ok (bool bit)

/-- The value and the fault of a step on row `j` of a block. -/
def rowStep (F : FloatOps) (nodes : List Node) (b : Block) (j : Nat) (rowValues : List Word) :
    Step → Except Stop (Word × Bool)
  | .input a => do
      let (column, offset) ← expect b.inputs[a]?
      let v ← input column (offset + j)
      .ok (v, false)
  | .constant v => .ok (v, false)
  | .not a => do
      let v ← expect rowValues[a]?
      .ok (bool (v == 0), false)
  | .binary op a c => do
      let x ← expect rowValues[a]?
      let y ← expect rowValues[c]?
      .ok (binary F op (nodeAt nodes a).ty x y)

/-- The nodes of a row from node `i` on: the pc of the first that faults, and the row values. -/
def scanRow (F : FloatOps) (nodes : List Node) (b : Block) (j : Nat) :
    List Node → Nat → List Word → Except Stop (Option Nat × List Word)
  | [], _, rowValues => .ok (none, rowValues)
  | node :: rest, i, rowValues => do
      let r ← rowStep F nodes b j rowValues node.step
      if r.2 then .ok (some node.pc, rowValues)
      else if i < rowValues.length then scanRow F nodes b j rest (i + 1) (rowValues.set i r.1)
      else .error .panic

/-- The rows from row `j` on, the first `count` of them. -/
def scanRows (F : FloatOps) (p : PreparedColumn) (b : Block) (mask : Option Word) :
    Nat → Nat → List Word → Except Stop (ColumnRefusal × Option Fault)
  | 0, _, _ => .error .panic
  | count + 1, j, rowValues =>
      if selects mask j then do
        let r ← scanRow F p.nodes b j p.nodes 0 rowValues
        match r.1 with
        | some pc => .ok (.arithmetic, some ⟨b.row + j, pc⟩)
        | none => scanRows F p b mask count (j + 1) r.2
      else scanRows F p b mask count (j + 1) rowValues

/-- `first_fault`. -/
def firstFault (F : FloatOps) (p : PreparedColumn) (b : Block) (mask : Option Word)
    (rowValues : List Word) : Except Stop (ColumnRefusal × Option Fault) :=
  scanRows F p b mask b.n 0 rowValues

/-- A block whose kernel failed ends the attempt with the evidence of the rescan. -/
def report {α : Type} (F : FloatOps) (p : PreparedColumn) (b : Block) (mask : Option Word)
    (rowValues : List Word) (failed : Bool) (done : α) : Except Stop α :=
  if failed then do
    let failure ← firstFault F p b mask rowValues
    .error (.replay failure.1 failure.2)
  else .ok done

/-! ## The fast loops -/

/-- The part of an integer input a block covers. -/
def Block.i64 (b : Block) (i : Nat) : Except Stop (List Word) :=
  match b.inputs[i]? with
  | some (.i64 v, offset) => expect (slice? v offset b.n)
  | _ => .error .panic

/-- The part of a float input a block covers. -/
def Block.f64 (b : Block) (i : Nat) : Except Stop (List Word) :=
  match b.inputs[i]? with
  | some (.f64 v, offset) => expect (slice? v offset b.n)
  | _ => .error .panic

/-- The whole bytes of a Boolean input a block covers, if it covers whole bytes. -/
def Block.bytes (b : Block) (i : Nat) : Except Stop (Option (List (BitVec 8))) :=
  match b.inputs[i]? with
  | some (.bool v, offset) => .ok (v.bytesAt offset b.n)
  | _ => .error .panic

/-- The loops of `run`: the output and the flag, if the plan has one for the output. -/
def denseFast (F : FloatOps) (e : Engine) (fast : Option Fast) (b : Block)
    (values : ColumnValues) : Except Stop (Option (ColumnValues × Bool)) :=
  match fast, values with
  | some (.i64Add i c), .i64 _ => do
      let x ← b.i64 i
      let r := e.add x c
      let values ← writeOutput values b.row r.1
      .ok (some (values, r.2))
  | some (.f64Add i c), .f64 _ => do
      let x ← b.f64 i
      let values ← writeOutput values b.row (Engine.floats F x c)
      .ok (some (values, false))
  | some (.fused i j), .i64 _ => do
      let x ← b.i64 i
      let y ← b.i64 j
      let r := e.fused x y
      let values ← writeOutput values b.row r.1
      .ok (some (values, r.2))
  | some (.f64Pair op i j), .f64 _ => do
      let x ← b.f64 i
      let y ← b.f64 j
      let values ← writeOutput values b.row (Engine.floatPair F op x y)
      .ok (some (values, false))
  | some (.boolNot i), .bool bytes =>
      if b.row % 8 ≠ 0 then .ok none
      else do
        let part ← b.bytes i
        match part with
        | none => .ok none
        | some part => do
            let bytes ← expect (splice? bytes (b.row / 8) (Engine.bits part))
            .ok (some (.bool bytes, false))
  | _, _ => .ok none

/-- A block of `run`. -/
def denseBlock (F : FloatOps) (e : Engine) (p : PreparedColumn) (b : Block)
    (scratch rowValues : List Word) (values : ColumnValues) : Except Stop Running := do
  let fast ← denseFast F e p.fast b values
  let s ← match fast with
    | some (values, failed) => .ok ⟨scratch, values, failed, e.avx2⟩
    | none => execute F e p b none scratch values
  report F p b none rowValues s.failed s

/-- `masked_fast`: the output and the flag. -/
def maskedFast (e : Engine) (fast : Fast) (b : Block) (values : ColumnValues) (mask : Word)
    (all : Bool) : Except Stop (ColumnValues × Bool) :=
  match fast, values with
  | .i64Add i c, .i64 _ => do
      let x ← b.i64 i
      let r := e.add x c
      let r := if all then r
        -- Only a flagged block needs overflow detection that knows the nulls.
        else if r.2 then e.maskedAdd x c mask
        else (Engine.zeroI64 r.1 mask, false)
      let values ← writeOutput values b.row r.1
      .ok (values, r.2)
  | .fused i j, .i64 _ => do
      let x ← b.i64 i
      let y ← b.i64 j
      let r := e.fused x y
      let r := if all then r
        else if r.2 then e.maskedFused x y mask
        else (Engine.zeroI64 r.1 mask, false)
      let values ← writeOutput values b.row r.1
      .ok (values, r.2)
  | _, _ => .error .panic

/-- A mask word of `run_masked`, for the plans it does not run a float or a packed loop for. -/
def maskedBlock (F : FloatOps) (e : Engine) (p : PreparedColumn) (b : Block) (mask : Word)
    (scratch rowValues : List Word) (values : ColumnValues) : Except Stop Running :=
  if mask = 0 then .ok ⟨scratch, values, false, false⟩
  else do
    let all := decide (mask = lowMask b.n)
    let s ← match p.fast with
      | some fast => do
          let r ← maskedFast e fast b values mask all
          .ok ⟨scratch, r.1, r.2, e.avx2⟩
      | none => execute F e p b (if all then none else some mask) scratch values
    report F p b (some mask) rowValues s.failed s

/-- `NumericOutput`: the room of a write-only output and the lanes written so far. -/
structure NumericOutput where
  len : Nat
  written : List Word

/-- `NumericOutput::destination` and the typed writers. -/
def NumericOutput.write (out : NumericOutput) (lanes : List Word) : Except Stop NumericOutput :=
  if out.len - out.written.length < lanes.length then .error .panic
  else .ok { out with written := out.written ++ lanes }

/-- The loops of `run_flat`: the lanes and the flag. -/
def flatFast (F : FloatOps) (e : Engine) (p : PreparedColumn) (b : Block) :
    Except Stop (List Word × Bool) :=
  match p.fast, p.output with
  | some (.i64Add i c), .i64 => do
      let x ← b.i64 i
      .ok (e.add x c)
  | some (.fused i j), .i64 => do
      let x ← b.i64 i
      let y ← b.i64 j
      .ok (e.fused x y)
  | some (.f64Add i c), .f64 => do
      let x ← b.f64 i
      .ok (Engine.floats F x c, false)
  | some (.f64Pair op i j), .f64 => do
      let x ← b.f64 i
      let y ← b.f64 j
      .ok (Engine.floatPair F op x y, false)
  | _, _ => .error .panic

/-- A block of `run_flat`. -/
def flatBlock (F : FloatOps) (e : Engine) (p : PreparedColumn) (b : Block)
    (rowValues : List Word) (out : NumericOutput) : Except Stop NumericOutput := do
  let r ← flatFast F e p b
  let out ← out.write r.1
  report F p b none rowValues r.2 out

end Rnx.Columns
