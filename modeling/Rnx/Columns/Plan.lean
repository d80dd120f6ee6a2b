import Rnx.Columns.Primitives
import Rnx.Code.Program

/-!
# Plans

`column/plan.rs`: the instructions of a straight-line function become a graph of typed nodes,
constants are folded, every computed node gets a place to live, and the plan is classified for
the traversals that run it.

Node indices come from the slot table of the pass and are in range; a slot of the function that
is not is an unwinding index.
-/

namespace Rnx.Columns

open Exec

/-! ## Lanes of an operator -/

/-- A Boolean as a word. -/
def bool (b : Bool) : Word := if b then 1 else 0

/-- The comparisons of `run.rs`'s `binary`. -/
def comparison (op : Binary) (eq lt le gt ge : Bool) : Word :=
  match op with
  | .eq => bool eq
  | .ne => bool !eq
  | .lt => bool lt
  | .le => bool le
  | .gt => bool gt
  | .ge => bool ge
  | _ => 0

/-- `run.rs`'s `binary`: the value of an operator and whether it overflowed.  The operators that
`binary_type` refuses for a type are unreachable and give zero. -/
def binary (F : FloatOps) (op : Binary) (ty : ColumnType) (a b : Word) : Word × Bool :=
  match ty with
  | .i64 =>
      match op with
      | .add => overflowingAdd a b
      | .sub => overflowingSub a b
      | .mul => overflowingMul a b
      | _ =>
          (comparison op (a == b) (a.slt b) (a.sle b) (b.slt a) (b.sle a), false)
  | .f64 =>
      match op with
      | .add => (FloatOp.add.apply F a b, false)
      | .sub => (FloatOp.sub.apply F a b, false)
      | .mul => (FloatOp.mul.apply F a b, false)
      | _ =>
          let x : F64 := ⟨a⟩
          let y : F64 := ⟨b⟩
          (comparison op (x.eqv y) (x.lt y) (x.le y) (y.lt x) (y.le x), false)
  | .bool =>
      match op with
      | .bitAnd => (a &&& b, false)
      | .bitOr => (a ||| b, false)
      | .bitXor => (a ^^^ b, false)
      | .eq => (bool (a == b), false)
      | .ne => (bool (a != b), false)
      | _ => (0, false)

/-! ## Nodes -/

/-- `Step`. -/
inductive Step
  | input (column : Nat)
  | constant (value : Word)
  | binary (op : Binary) (a b : Nat)
  | not (a : Nat)
deriving DecidableEq

/-- `Operand`: where the value of a node lives. -/
inductive Operand
  | input (column : Nat)
  | constant (value : Word)
  | slot (slot : Nat)
  | output
deriving DecidableEq

/-- `Node`. -/
structure Node where
  step : Step
  ty : ColumnType
  pc : Nat
  operand : Operand

namespace Step

/-- Whether a node computes its value from other nodes. -/
def computes : Step → Bool
  | binary .. | not .. => true
  | _ => false

/-- The nodes a step reads. -/
def deps : Step → List Nat
  | binary _ a b => [a, b]
  | not a => [a]
  | _ => []

end Step

/-- A node by its index. -/
def nodeAt (nodes : List Node) (i : Nat) : Node := nodes.getD i ⟨.constant 0, .i64, 0, .constant 0⟩

/-- `Fast`: the shapes that have a loop of their own. -/
inductive Fast
  | i64Add (i : Nat) (c : Word)
  | f64Add (i : Nat) (c : Word)
  | boolNot (i : Nat)
  | fused (i j : Nat)
  | f64Pair (op : FloatOp) (i j : Nat)
deriving DecidableEq

/-- The pair operation of an operator, if it has one. -/
def pairOp : Binary → Option FloatOp
  | .add => some .add
  | .sub => some .sub
  | .mul => some .mul
  | _ => none

/-- The nodes that compute. -/
def computedCount (nodes : List Node) : Nat := nodes.countP fun n => n.step.computes

/-- The first test of `fast`: one float operator on two inputs. -/
def fastPair (nodes : List Node) (result : Nat) : Option (Option Fast) :=
  if computedCount nodes = 1 ∧ (nodeAt nodes result).ty = .f64 then
    match (nodeAt nodes result).step with
    | .binary op a b =>
        match (nodeAt nodes a).step, (nodeAt nodes b).step with
        | .input i, .input j => some ((pairOp op).map fun op => .f64Pair op i j)
        | _, _ => none
    | _ => none
  else none

/-- An addition of an input and a constant. -/
def fastAdd (nodes : List Node) (result a b : Nat) : Option Fast :=
  match (nodeAt nodes a).step, (nodeAt nodes b).step with
  | .input i, .constant c =>
      match (nodeAt nodes result).ty with
      | .i64 => some (.i64Add i c)
      | .f64 => some (.f64Add i c)
      | .bool => none
  | _, _ => none

/-- Twice an input plus an input. -/
def fastFused (nodes : List Node) (a b : Nat) : Option Fast :=
  match (nodeAt nodes a).step, (nodeAt nodes b).step with
  | .binary .mul x c, .input j =>
      match (nodeAt nodes x).step, (nodeAt nodes c).step with
      | .input i, .constant v => if v = 2 then some (.fused i j) else none
      | _, _ => none
  | _, _ => none

/-- `fast`. -/
def fast (nodes : List Node) (result : Nat) : Option Fast :=
  match fastPair nodes result with
  | some found => found
  | none =>
      match (nodeAt nodes result).step with
      | .binary .add a b =>
          if computedCount nodes = 1 then fastAdd nodes result a b
          else if computedCount nodes = 2 ∧ (nodeAt nodes result).ty = .i64 then
            fastFused nodes a b
          else none
      | .not a =>
          if computedCount nodes = 1 then
            match (nodeAt nodes a).step with
            | .input i => some (.boolNot i)
            | _ => none
          else none
      | _ => none

/-- `binary_type`. -/
def binaryType (op : Binary) (left right : ColumnType) : Except Stop ColumnType :=
  if left ≠ right then .error (.replay .type none)
  else
    match left, op with
    | .i64, .add | .i64, .sub | .i64, .mul => .ok .i64
    | .f64, .add | .f64, .sub | .f64, .mul => .ok .f64
    | .i64, .eq | .i64, .ne | .i64, .lt | .i64, .le | .i64, .gt | .i64, .ge => .ok .bool
    | .f64, .eq | .f64, .ne | .f64, .lt | .f64, .le | .f64, .gt | .f64, .ge => .ok .bool
    | .bool, .eq | .bool, .ne | .bool, .bitAnd | .bool, .bitOr | .bool, .bitXor => .ok .bool
    | _, _ => .error (.replay .unsupported none)

/-! ## The pass over the instructions -/

/-- What the pass keeps: the slot table, the nodes and the classification so far. -/
structure Draft where
  slots : List (Option Nat)
  nodes : List Node
  booleanPlan : Bool
  booleanPair : Bool
  f64Plan : Bool
  f64Operations : Nat
  predicatePlan : Bool
  numericComparison : Bool
  rowCharge : Nat

namespace Draft

/-- The closure `get`. -/
def get (d : Draft) (slot : Nat) : Except Stop Nat :=
  match d.slots[slot]? with
  | some (some k) => .ok k
  | _ => .error (.replay .type none)

/-- `slots[slot] = node`. -/
def setSlot (d : Draft) (slot : Nat) (node : Option Nat) : Except Stop Draft :=
  if slot < d.slots.length then .ok { d with slots := d.slots.set slot node } else .error .panic

/-- A step the packed Boolean traversal runs. -/
def booleanStep : Step → Bool
  | .binary .bitAnd _ _ | .binary .bitOr _ _ => true
  | .input _ | .constant _ | .not _ => true
  | _ => false

/-- A pair the packed Boolean traversal is worth running for. -/
def booleanPairStep : Step → Bool
  | .binary .bitAnd _ _ | .binary .bitOr _ _ => true
  | _ => false

/-- A float operator of the float traversal. -/
def f64Operation : Step → Bool
  | .binary .add _ _ | .binary .sub _ _ | .binary .mul _ _ => true
  | _ => false

/-- A step the float traversal runs. -/
def f64Step : Step → Bool
  | .binary .add _ _ | .binary .sub _ _ | .binary .mul _ _ => true
  | .input _ | .constant _ => true
  | _ => false

/-- A comparison of numbers. -/
def numericStep (nodes : List Node) : Step → Bool
  | .binary op a _ => isComparison op && decide ((nodeAt nodes a).ty ≠ .bool)
  | _ => false

/-- A step the predicate traversal runs. -/
def predicateStep (nodes : List Node) : Step → Bool
  | .input _ | .constant _ | .not _ => true
  | .binary op a _ =>
      match (nodeAt nodes a).ty, op with
      | .i64, op => isComparison op
      | .f64, .add | .f64, .sub | .f64, .mul => true
      | .f64, op => isComparison op
      | .bool, .bitAnd | .bool, .bitOr | .bool, .bitXor | .bool, .eq | .bool, .ne => true
      | .bool, _ => false

/-- Fold an operator on constants, unless it overflows. -/
def fold (F : FloatOps) (nodes : List Node) (step : Step) : Step :=
  match step with
  | .binary op a b =>
      match (nodeAt nodes a).step, (nodeAt nodes b).step with
      | .constant x, .constant y =>
          let r := Columns.binary F op (nodeAt nodes a).ty x y
          if r.2 then step else .constant r.1
      | _, _ => step
  | .not a =>
      match (nodeAt nodes a).step with
      | .constant value => .constant (bool (value == 0))
      | _ => step
  | _ => step

/-- Classify a step as it was written. -/
def classify (d : Draft) (step : Step) (ty : ColumnType) : Draft :=
  { d with
    booleanPlan := d.booleanPlan && (decide (ty = .bool) && booleanStep step)
    booleanPair := d.booleanPair || (decide (ty = .bool) && booleanPairStep step)
    f64Plan := d.f64Plan && (decide (ty = .f64) && f64Step step)
    f64Operations := d.f64Operations + if ty = .f64 ∧ f64Operation step then 1 else 0
    predicatePlan := d.predicatePlan && predicateStep d.nodes step
    numericComparison := d.numericComparison || numericStep d.nodes step }

/-- Classify a step, fold it and add its node. -/
def push (F : FloatOps) (d : Draft) (pc out : Nat) (step : Step) (ty : ColumnType) :
    Except Stop Draft := do
  let next ← (d.classify step ty).setSlot out (some d.nodes.length)
  .ok { next with nodes := d.nodes ++ [⟨fold F d.nodes step, ty, pc, .output⟩] }

end Draft

/-- The arms of the pass: the next draft, or the node that is returned. -/
def prepareOp (F : FloatOps) (d : Draft) (pc : Nat) : Op → Except Stop (Draft × Option Nat)
  | .literal out (.i64 v) => (d.push F pc out (.constant v.toWord) .i64).map (·, none)
  | .literal out (.f64 v) => (d.push F pc out (.constant v.bits) .f64).map (·, none)
  | .literal out (.bool v) => (d.push F pc out (.constant (bool v)) .bool).map (·, none)
  | .literal out .unit => (d.setSlot out none).map (·, none)
  | .copy out value => do
      let k ← d.get value
      (d.setSlot out (some k)).map (·, none)
  | .release value => (d.setSlot value none).map (·, none)
  | .unary out .not value => do
      let k ← d.get value
      if (nodeAt d.nodes k).ty ≠ .bool then .error (.replay .type none)
      else (d.push F pc out (.not k) .bool).map (·, none)
  | .binary out op lhs rhs => do
      let a ← d.get lhs
      let b ← d.get rhs
      let ty ← binaryType op (nodeAt d.nodes a).ty (nodeAt d.nodes b).ty
      (d.push F pc out (.binary op a b) ty).map (·, none)
  | .returnValue value => do
      let k ← d.get value
      .ok (d, some k)
  | _ => .error (.replay .unsupported none)

/-- The loop over the instructions, to the first return. -/
def prepareCode (F : FloatOps) (f : Function) :
    List Instruction → Nat → Draft → Except Stop (Draft × Nat)
  | [], _, _ => .error (.replay .unsupported none)
  | i :: code, pc, d => do
      let d := { d with rowCharge := d.rowCharge + if i.charged then 1 else 0 }
      let op ← (f.operation pc).mapError fun _ => .replay .unsupported none
      let next ← prepareOp F d pc op
      match next with
      | (d, some result) => .ok (d, result)
      | (d, none) => prepareCode F f code (pc + 1) d

/-! ## Scratch slots -/

/-- The state of the interval allocation: operands given so far, uses left, free slots. -/
structure Alloc where
  operands : List Operand
  uses : List Nat
  free : List Nat
  count : Nat

/-- The uses of every node, the result counted once more. -/
def useCounts (nodes : List Node) (result : Nat) : List Nat :=
  (nodes.foldl (fun uses n => n.step.deps.foldl (fun uses d => uses.modify d (· + 1)) uses)
    (List.replicate nodes.length 0)).modify result (· + 1)

namespace Alloc

/-- The free slot on top, or a new one. -/
def take (s : Alloc) : Nat × Alloc :=
  match s.free with
  | slot :: free => (slot, { s with free := free })
  | [] => (s.count, { s with count := s.count + 1 })

/-- Free the slot of a node without uses. -/
def retire (s : Alloc) (i : Nat) : Alloc :=
  match s.uses.getD i 0, s.operands[i]? with
  | 0, some (.slot slot) => { s with free := slot :: s.free }
  | _, _ => s

/-- One use of a node is over. -/
def consume (s : Alloc) (i : Nat) : Alloc :=
  { s with uses := s.uses.modify i (· - 1) }.retire i

/-- Place a node, then free what it used last. -/
def step (result : Nat) (s : Alloc) (i : Nat) (n : Node) : Alloc :=
  let placed : Operand × Alloc :=
    match n.step with
    | .input column => (.input column, s)
    | .constant value => (.constant value, s)
    | _ =>
        if i = result then (.output, s)
        else
          let t := s.take
          (.slot t.1, t.2)
  let s := { placed.2 with operands := placed.2.operands ++ [placed.1] }
  (n.step.deps.foldl consume s).retire i

/-- The allocation, from node `i` on. -/
def run (result : Nat) : List Node → Nat → Alloc → Alloc
  | [], _, s => s
  | n :: nodes, i, s => run result nodes (i + 1) (s.step result i n)

end Alloc

/-- The operands of all nodes and the number of slots. -/
def allocate (nodes : List Node) (result : Nat) : Alloc :=
  Alloc.run result nodes 0 ⟨[], useCounts nodes result, [], 0⟩

/-! ## Memory -/

/-- The sizes of the types whose layout the compiler chooses. -/
structure Layout where
  plan : Nat
  node : Nat
  token : Nat

/-- `reserved` and `filled`: the bytes of an exact reservation of `len` elements. -/
def reserved (size len room : Nat) : Except Stop Nat :=
  match Rnx.checkedMul len size with
  | none => .error (.replay .memory none)
  | some n => if room < n then .error (.replay .memory none) else .ok n

/-- An arithmetic step of an allowance that must not wrap. -/
def memory (n : Option Nat) : Except Stop Nat :=
  match n with
  | some n => .ok n
  | none => .error (.replay .memory none)

/-- The storage of the pass: the bytes of the plan, and with the slot table. -/
def passMemory (L : Layout) (f : Function) (inputs limit : Nat) : Except Stop (Nat × Nat) := do
  let temporary ← reserved 16 f.slots (limit - L.plan)
  let nodeMax ← memory (checkedAdd f.code.length inputs)
  let room ← memory ((checkedSub limit L.plan).bind (checkedSub · temporary))
  let size ← reserved L.node nodeMax room
  let bytes ← memory (checkedAdd size L.plan)
  let occupied ← memory (checkedAdd bytes temporary)
  if limit < occupied then .error (.replay .memory none) else .ok (bytes, occupied)

/-- The storage of the allocation. -/
def allocMemory (nodes occupied limit : Nat) : Except Stop Unit := do
  let extra ← memory (Rnx.checkedMul nodes 16)
  let total ← memory (checkedAdd occupied extra)
  if limit < total then .error (.replay .memory none)
  else do
    let used ← reserved 8 nodes (limit - occupied)
    let room ← memory (checkedSub limit (occupied + used))
    let _ ← reserved 8 nodes room
    .ok ()

/-! ## Prepared columns -/

/-- `PreparedColumn`. -/
structure PreparedColumn where
  code : Nat
  function : Nat
  inputs : List ColumnType
  output : ColumnType
  nodes : List Node
  result : Nat
  rowCharge : Nat
  bytes : Nat
  limit : Nat
  frameSlots : Nat
  scratchCount : Nat
  fast : Option Fast
  special : Bool
  booleanPlan : Bool

/-- `Driver`. -/
inductive Driver
  | boolean | f64 | predicate
deriving DecidableEq, Repr

/-- `PreparedColumn::driver`, of a special plan. -/
def PreparedColumn.driver (p : PreparedColumn) : Driver :=
  if p.booleanPlan ∧ p.output = .bool then .boolean
  else if ¬p.booleanPlan ∧ p.output = .f64 then .f64
  else .predicate

/-- The inputs as the first nodes. -/
def inputDraft (slots : Nat) (inputs : List ColumnType) : Except Stop Draft :=
  if slots < inputs.length then .error .panic
  else .ok
    { slots := (List.range slots).map fun i => if i < inputs.length then some i else none
      nodes := inputs.mapIdx fun i ty => ⟨.input i, ty, 0, .input i⟩
      booleanPlan := inputs.all fun ty => decide (ty = .bool)
      booleanPair := false
      f64Plan := inputs.all fun ty => decide (ty = .f64)
      f64Operations := 0
      predicatePlan := true
      numericComparison := false
      rowCharge := 0 }

/-- `prepare`. -/
def prepare (F : FloatOps) (L : Layout) (program : Program) (function : Nat)
    (inputs : List ColumnType) (output : ColumnType) (limit : Nat) :
    Except Stop PreparedColumn := do
  if ¬program.entryEligible function ∨ program.formattingGuard ≠ 0 then
    .error (.replay .entryAuthority none)
  else if ¬(1 ≤ inputs.length ∧ inputs.length ≤ 3) then .error (.replay .bounds none)
  else
    match program.function function with
    | none => .error (.replay .bounds none)
    | some f =>
        if f.parameters ≠ inputs.length then .error (.replay .bounds none)
        else do
          let (bytes, occupied) ← passMemory L f inputs.length limit
          let start ← inputDraft f.slots inputs
          let (d, result) ← prepareCode F f f.code 0 start
          if (nodeAt d.nodes result).ty ≠ output then .error (.replay .type none)
          else do
            allocMemory d.nodes.length occupied limit
            let alloc := allocate d.nodes result
            let nodes := d.nodes.zipWith (fun n operand => { n with operand := operand })
              alloc.operands
            .ok
              { code := program.code
                function := function
                inputs := inputs
                output := output
                nodes := nodes
                result := result
                rowCharge := d.rowCharge
                bytes := bytes
                limit := limit
                frameSlots := f.slots
                scratchCount := alloc.count
                fast := Columns.fast nodes result
                special := (d.booleanPlan && d.booleanPair) ||
                  (d.f64Plan && decide (2 ≤ d.f64Operations)) ||
                  (d.predicatePlan && d.numericComparison && decide (output = .bool))
                booleanPlan := d.booleanPlan && d.booleanPair }

end Rnx.Columns
