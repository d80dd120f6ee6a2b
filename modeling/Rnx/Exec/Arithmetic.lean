import Rnx.Code.Op

/-!
# Primitive arithmetic

The operators of `arithmetic.rs` on the values that are not handles, and the comparison of
`heap/comparison.rs` restricted to them.  Integers are checked; the arithmetic of floats is a
parameter, of which nothing is assumed, while their comparisons are read off the bit patterns.
-/

namespace Rnx

/-! ## Machine words -/

namespace I64

/-- The two's complement word of an integer. -/
def toWord (a : I64) : BitVec 64 := BitVec.ofInt 64 a.val

/-- The integer a word stands for. -/
def ofWord (w : BitVec 64) : I64 :=
  ⟨w.toInt, by have := BitVec.two_mul_toInt_le (x := w); have := BitVec.le_two_mul_toInt (x := w); omega,
    by have := BitVec.two_mul_toInt_lt (x := w); omega⟩

/-- `i64::checked_div`. -/
def checkedDiv (a b : I64) : Option I64 :=
  if b.val = 0 then none else ofInt? (a.val.tdiv b.val)

/-- `i64::checked_rem`: where the quotient overflows, so does the remainder. -/
def checkedRem (a b : I64) : Option I64 :=
  if b.val = 0 ∨ (a.val = -2 ^ 63 ∧ b.val = -1) then none else ofInt? (a.val.tmod b.val)

end I64

/-! ## Floats -/

namespace F64

/-- The magnitude and the sign of a pattern as one integer, on which the order of two numbers
is the order of the integers. -/
def key (a : F64) : Int :=
  let magnitude : Int := (a.bits &&& 0x7FFFFFFFFFFFFFFF#64).toNat
  if a.bits.msb then -magnitude else magnitude

/-- `f64`'s `<`. -/
def lt (a b : F64) : Bool := !a.isNan && !b.isNan && decide (a.key < b.key)

/-- `f64`'s `<=`. -/
def le (a b : F64) : Bool := !a.isNan && !b.isNan && decide (a.key ≤ b.key)

end F64

/-- The arithmetic of `f64`. -/
structure FloatOps where
  add : F64 → F64 → F64
  sub : F64 → F64 → F64
  mul : F64 → F64 → F64
  div : F64 → F64 → F64
  rem : F64 → F64 → F64
  neg : F64 → F64

namespace Exec

/-! ## Errors -/

/-- `IntTarget`, as far as the shift counts and mixed operands go. -/
inductive CoerceTarget
  | i64 | u64 | u32
deriving DecidableEq, Repr

/-- The details a primitive operation attaches to its error. -/
inductive PrimitiveDetail
  | none
  | underflow
  | binary (op : Binary) (lhs rhs : TypeName)
  | unary (op : Unary) (operand : TypeName)
  | coerce (value : IntValue) (target : CoerceTarget)
  | expectedNumber (found : TypeName)
deriving DecidableEq

/-- An error whose operation is "primitive operation". -/
structure PrimitiveError where
  kind : ErrorKind
  detail : PrimitiveDetail
deriving DecidableEq

/-- The outcome of a primitive operation. -/
abbrev Primitive := Except PrimitiveError

/-- `Error::new(kind, "primitive operation")`. -/
def primitiveError (kind : ErrorKind) : PrimitiveError := ⟨kind, .none⟩

/-- `checked`. -/
def checked (value : Option I64) : Primitive I64 := okOr value (primitiveError .overflow)

/-- The subtraction that reports an underflow. -/
def checkedDown (value : Option I64) : Primitive I64 := okOr value ⟨.overflow, .underflow⟩

/-- `type_error`. -/
def typeError (op : Binary) (a b : Value) : PrimitiveError :=
  match TypeName.primitive a, TypeName.primitive b with
  | some lhs, some rhs => ⟨.type, .binary op lhs rhs⟩
  | _, _ => primitiveError .type

/-! ## Comparisons -/

/-- `compare`. -/
def compare (op : Binary) (eq lt gt : Bool) : Primitive Value :=
  match op with
  | .eq => .ok (.bool eq)
  | .ne => .ok (.bool !eq)
  | .lt => .ok (.bool lt)
  | .le => .ok (.bool (lt || eq))
  | .gt => .ok (.bool gt)
  | .ge => .ok (.bool (gt || eq))
  | _ => .error (primitiveError .type)

/-- The operators that compare. -/
def isComparison : Binary → Bool
  | .eq | .ne | .lt | .le | .gt | .ge => true
  | _ => false

/-- `compare_binary`. -/
def compareBinary (op : Binary) (a b : Value) (eq lt gt : Bool) : Primitive Value :=
  if isComparison op then compare op eq lt gt else .error (typeError op a b)

/-! ## Operands of two integer types -/

/-- `shift`: the count of a shift. -/
def shift (value : Value) (op : Binary) : Primitive Nat := do
  let count ←
    match IntValue.of value with
    | some n =>
        if 0 ≤ n.wide ∧ n.wide ≤ u32Max then .ok n.wide.toNat
        else .error ⟨.integerCoercion, .coerce n .u32⟩
    | none => .error (primitiveError .type)
  if 64 ≤ count then
    .error (if op = .shr then ⟨.overflow, .underflow⟩ else primitiveError .overflow)
  else .ok count

/-- The right operand, converted to the integer type of the left one. -/
def coerceRight (op : Binary) (a b : Value) : Primitive Value :=
  match a, b with
  | .i64 _, .u64 n =>
      if op = .shl ∨ op = .shr then do
        let count ← shift b op
        (checked (I64.ofInt? count)).map .i64
      else (okOr (I64.ofInt? n.val) ⟨.integerCoercion, .coerce (.unsigned n) .i64⟩).map .i64
  | .u64 _, .i64 n =>
      if op = .shl ∨ op = .shr then do
        let count ← shift b op
        (okOr (U64.ofNat? count) (primitiveError .overflow)).map .u64
      else if 0 ≤ n.val then
        (okOr (U64.ofNat? n.val.toNat) ⟨.integerCoercion, .coerce (.signed n) .u64⟩).map .u64
      else .error ⟨.integerCoercion, .coerce (.signed n) .u64⟩
  | _, _ => .ok b

/-! ## The operators on each type -/

/-- Two signed integers; `a` and `b` are the operands before conversion. -/
def binaryI64 (op : Binary) (a b : Value) (x y : I64) : Primitive Value :=
  match op with
  | .add => (checked (I64.ofInt? (x.val + y.val))).map .i64
  | .sub => (checkedDown (I64.ofInt? (x.val - y.val))).map .i64
  | .mul => (checked (I64.ofInt? (x.val * y.val))).map .i64
  | .div =>
      if y.val = 0 then .error (primitiveError .divisionByZero)
      else (checked (I64.ofInt? (x.val.tdiv y.val))).map .i64
  | .rem =>
      if y.val = 0 then .error (primitiveError .divisionByZero)
      else if y.val = -1 ∧ x.val = -2 ^ 63 then .error (primitiveError .overflow)
      else (checked (I64.ofInt? (x.val.tmod y.val))).map .i64
  | .bitAnd => .ok (.i64 (.ofWord (x.toWord &&& y.toWord)))
  | .bitOr => .ok (.i64 (.ofWord (x.toWord ||| y.toWord)))
  | .bitXor => .ok (.i64 (.ofWord (x.toWord ^^^ y.toWord)))
  | .shl => (shift (.i64 y) op).map fun n => .i64 (.ofWord (x.toWord <<< n))
  | .shr => (shift (.i64 y) op).map fun n => .i64 (.ofWord (x.toWord.sshiftRight n))
  | _ => compareBinary op a b (x.val == y.val) (decide (x.val < y.val)) (decide (y.val < x.val))

/-- Two unsigned integers. -/
def binaryU64 (op : Binary) (a b : Value) (x y : U64) : Primitive Value :=
  let word (n : Nat) : Primitive Value :=
    (okOr (U64.ofNat? n) (primitiveError .overflow)).map .u64
  match op with
  | .add => word (x.val + y.val)
  | .sub => if x.val < y.val then .error ⟨.overflow, .underflow⟩ else word (x.val - y.val)
  | .mul => word (x.val * y.val)
  | .div => if y.val = 0 then .error (primitiveError .divisionByZero) else word (x.val / y.val)
  | .rem => if y.val = 0 then .error (primitiveError .divisionByZero) else word (x.val % y.val)
  | .bitAnd => word (x.val &&& y.val)
  | .bitOr => word (x.val ||| y.val)
  | .bitXor => word (x.val ^^^ y.val)
  | .shl => do
      let n ← shift (.u64 y) op
      word ((x.val <<< n) % 2 ^ 64)
  | .shr => do
      let n ← shift (.u64 y) op
      word (x.val >>> n)
  | _ => compareBinary op a b (x.val == y.val) (decide (x.val < y.val)) (decide (y.val < x.val))

/-- Two floats. -/
def binaryF64 (F : FloatOps) (op : Binary) (a b : Value) (x y : F64) : Primitive Value :=
  match op with
  | .add => .ok (.f64 (F.add x y))
  | .sub => .ok (.f64 (F.sub x y))
  | .mul => .ok (.f64 (F.mul x y))
  | .div => .ok (.f64 (F.div x y))
  | .rem => .ok (.f64 (F.rem x y))
  | _ => compareBinary op a b (x.eqv y) (x.lt y) (y.lt x)

/-- Two Booleans. -/
def binaryBool (op : Binary) (a b : Value) (x y : Bool) : Primitive Value :=
  match op with
  | .bitAnd => .ok (.bool (x && y))
  | .bitOr => .ok (.bool (x || y))
  | .bitXor => .ok (.bool (x ^^ y))
  | _ => compareBinary op a b (x == y) (!x && y) (x && !y)

/-- The position of an ordering in the order of orderings. -/
def orderRank : Ordering → Nat
  | .lt => 0
  | .eq => 1
  | .gt => 2

/-- `arithmetic::binary`. -/
def arithmeticBinary (F : FloatOps) (op : Binary) (a b : Value) : Primitive Value := do
  let right ← coerceRight op a b
  match a, right with
  | .i64 x, .i64 y => binaryI64 op a b x y
  | .u64 x, .u64 y => binaryU64 op a b x y
  | .f64 x, .f64 y => binaryF64 F op a b x y
  | .bool x, .bool y => binaryBool op a b x y
  | .ordering x, .ordering y =>
      compareBinary op a b (x == y) (decide (orderRank x < orderRank y))
        (decide (orderRank y < orderRank x))
  | .char x, .char y =>
      compareBinary op a b (x == y) (decide (x.val < y.val)) (decide (y.val < x.val))
  | .unit, .unit => compareBinary op a b true false false
  | _, _ => .error (typeError op a b)

/-- `arithmetic::unary`. -/
def arithmeticUnary (F : FloatOps) (op : Unary) (value : Value) : Primitive Value :=
  match op, value with
  | .neg, .i64 a => (checked (I64.ofInt? (-a.val))).map .i64
  | .neg, .f64 a => .ok (.f64 (F.neg a))
  | .not, .bool a => .ok (.bool !a)
  | .not, .i64 a => .ok (.i64 (.ofWord (~~~a.toWord)))
  | .not, .u64 a =>
      (okOr (U64.ofNat? (2 ^ 64 - 1 - a.val)) (primitiveError .overflow)).map .u64
  | _, _ =>
      .error (match TypeName.primitive value with
        | some operand => ⟨.type, .unary op operand⟩
        | none => primitiveError .type)

/-! ## Dispatch -/

/-- `fast_i64`: two signed integers, unless the operator is left to the general path. -/
def fastI64 (op : Binary) (a b : Value) : Option (Primitive Value) :=
  match a, b with
  | .i64 a, .i64 b =>
      match op with
      | .add => some ((checked (I64.ofInt? (a.val + b.val))).map .i64)
      | .sub => some ((checkedDown (I64.ofInt? (a.val - b.val))).map .i64)
      | .mul => some ((checked (I64.ofInt? (a.val * b.val))).map .i64)
      | .div =>
          some (if b.val = 0 then .error (primitiveError .divisionByZero)
            else (checked (I64.checkedDiv a b)).map .i64)
      | .rem =>
          some (if b.val = 0 then .error (primitiveError .divisionByZero)
            else (checked (I64.checkedRem a b)).map .i64)
      | .eq => some (.ok (.bool (a.val == b.val)))
      | .ne => some (.ok (.bool (a.val != b.val)))
      | .lt => some (.ok (.bool (decide (a.val < b.val))))
      | .le => some (.ok (.bool (decide (a.val ≤ b.val))))
      | .gt => some (.ok (.bool (decide (b.val < a.val))))
      | .ge => some (.ok (.bool (decide (b.val ≤ a.val))))
      | .bitAnd | .bitOr | .bitXor | .shl | .shr => none
  | _, _ => none

/-- `Store::compare_order` for two values of which neither is a handle, a function or a type:
the order of the two, if they have one. -/
def scalarOrder (F : FloatOps) (op : Binary) (a b : Value) : Primitive (Option Ordering) :=
  match a, b with
  | .unit, .unit => .ok (some .eq)
  | .unit, _ => .error (typeError op a b)
  | _, _ =>
      match IntValue.of a, IntValue.of b, TypeName.primitive b with
      | some _, none, some found => .error ⟨.type, .expectedNumber found⟩
      | _, _, _ => do
          let eq ← (arithmeticBinary F .eq a b).mapError fun e =>
            if e.kind = .type then typeError op a b else e
          if eq = .bool true then .ok (some .eq)
          else if op = .eq ∨ op = .ne then .ok (some .lt)
          else do
            let lt ← arithmeticBinary F .lt a b
            let gt ← arithmeticBinary F .gt a b
            .ok (if lt = .bool true then some .lt else if gt = .bool true then some .gt else none)

/-- `Store::compare` for two such values. -/
def compareScalars (F : FloatOps) (op : Binary) (a b : Value) : Primitive Value := do
  let order ← scalarOrder F op a b
  compare op (order == some .eq) (order == some .lt) (order == some .gt)

/-- `execute.rs`'s `binary` for two such values. -/
def dispatchBinary (F : FloatOps) (op : Binary) (a b : Value) : Primitive Value :=
  if isComparison op then compareScalars F op a b else arithmeticBinary F op a b

/-- The arm of `Op::Binary`. -/
def operate (F : FloatOps) (op : Binary) (a b : Value) : Primitive Value :=
  match fastI64 op a b with
  | some result => result
  | none => dispatchBinary F op a b

end Exec

end Rnx
