import Rnx.Exec.Arithmetic
import Rnx.Lib.Decision
import Rnx.Store.Iteration

/-!
# Comparisons of values

The structural comparison of `heap/comparison.rs`.  A pair of values is decided at once, or by the
pairs of their children; the children wait on a stack.  Every pair counts towards the depth limit,
so that a value that contains itself ends the comparison with an error.
-/

namespace Rnx

open ErrState (read)

/-! ## Errors -/

/-- `BinarySymbol::from_op`. -/
def BinarySymbol.fromOp (op : Binary) (assign : Bool) : BinarySymbol :=
  match op, assign with
  | .add, true => .addAssign
  | .sub, true => .subAssign
  | .mul, true => .mulAssign
  | .div, true => .divAssign
  | .rem, true => .remAssign
  | .bitAnd, true => .bitAndAssign
  | .bitOr, true => .bitOrAssign
  | .bitXor, true => .bitXorAssign
  | .shl, true => .shlAssign
  | .shr, true => .shrAssign
  | .add, _ => .add
  | .sub, _ => .sub
  | .mul, _ => .mul
  | .div, _ => .div
  | .rem, _ => .rem
  | .eq, _ => .eq
  | .ne, _ => .ne
  | .lt, _ => .lt
  | .le, _ => .le
  | .gt, _ => .gt
  | .ge, _ => .ge
  | .bitAnd, _ => .bitAnd
  | .bitOr, _ => .bitOr
  | .bitXor, _ => .bitXor
  | .shl, _ => .shl
  | .shr, _ => .shr

/-- `error`: the operation of these errors. -/
def primitive (kind : ErrorKind) : Error := .new kind "primitive operation"

namespace Exec

/-- The target of a coercion. -/
def CoerceTarget.target : CoerceTarget → IntTarget
  | .i64 => .i64
  | .u64 => .u64
  | .u32 => .u32

/-- The detail of a primitive operation. -/
def PrimitiveDetail.detail : PrimitiveDetail → Detail
  | .none => .none
  | .underflow => .underflow
  | .binary op lhs rhs => .binary (.fromOp op false) lhs rhs
  | .unary .neg operand => .unary .neg operand
  | .unary .not operand => .unary .not operand
  | .coerce value target => .coerce value target.target
  | .expectedNumber found => .expectedNumber found

/-- The error of a primitive operation. -/
def PrimitiveError.error (e : PrimitiveError) : Error := (primitive e.kind).withDetail e.detail.detail

/-- The outcome of a primitive operation, among those of the store. -/
def lift {α : Type} (r : Primitive α) : Except Error α := r.mapError PrimitiveError.error

end Exec

/-! ## Items -/

/-- `char::from_u32`. -/
def charFromU32 (n : Nat) : Option Char :=
  if h : n.isValidChar then some (Char.ofNatAux n h) else none

/-- What is compared: a value, or a key of an object, or an entry of one. -/
inductive Item
  | value (v : Value)
  | text (chars : List Char)
  | pair (key : List Char) (v : Value)
deriving DecidableEq

/-- A borrowed sequence of items. -/
inductive Sequence
  | values (vs : List Value)
  | fields (fs : List (Text × Value))
  | pairs (fs : List (Text × Value))
  | range (start finish : I64)
  | unsignedRange (start finish : U64)
  | charRange (start finish : Char)
  | one (v : Option Value)
  | pair (key : List Char) (v : Value)
  | bounds (start finish : Value)

/-- The code of the `n`-th character from `start` on: the surrogates are left out. -/
def charOffset (start : Char) (n : Nat) : Option Nat := do
  let value ← checkedAdd start.toNat n
  if start.toNat < 0xd800 ∧ 0xd800 ≤ value then checkedAdd value 0x800 else some value

/-- `Sequence::get`. -/
def Sequence.get : Sequence → Nat → Option Item
  | values vs, n => vs[n]?.map .value
  | fields fs, n => fs[n]?.map fun f => .value f.2
  | pairs fs, n => fs[n]?.map fun f => .pair f.1.chars f.2
  | range start finish, n =>
      if start.val + n ≥ finish.val then none
      else (I64.ofInt? (start.val + n)).map fun m => .value (.i64 m)
  | unsignedRange start finish, n =>
      if start.val + n ≥ finish.val then none
      else (U64.ofNat? (start.val + n)).map fun m => .value (.u64 m)
  | charRange start finish, n => do
      let value ← charOffset start n
      if value ≥ finish.toNat then none else (charFromU32 value).map fun c => .value (.char c)
  | one v, 0 => v.map .value
  | pair key _, 0 => some (.text key)
  | pair _ v, 1 => some (.value v)
  | bounds start _, 0 => some (.value start)
  | bounds _ finish, 1 => some (.value finish)
  | _, _ => none

/-- `str`'s order, by bytes. -/
def textOrder (a b : List Char) : Ordering :=
  List.compareLex compare (a.flatMap String.utf8EncodeChar) (b.flatMap String.utf8EncodeChar)

/-- What the process-wide tables say of the types that are compared: the hash and the ordinal of a
declared variant (the hash is zero for what is no variant), and the hash of a type. -/
structure TypeTable where
  variantInfo : Nominal → Option (Nat × Nat)
  typeHash : Ty → Except Error Nat

/-- The derived `PartialEq` of names. -/
def TypeName.eqv (N : Nominals) : TypeName → TypeName → Bool
  | struct a, struct b => a == b || N.sameType a b
  | a, b => a == b

/-- Two variants of one declared enumeration are ordered by their ordinals. -/
def variantOrder (N : Nominals) (T : TypeTable) (equality : Bool) (lhs rhs : TypeName) :
    Option Ordering :=
  match lhs, rhs with
  | .struct a, .struct b =>
      match T.variantInfo a, T.variantInfo b with
      | some (av, ai), some (bv, bi) =>
          if (av ≠ 0 ∨ bv ≠ 0) ∧ av ≠ bv ∧ (a == b || N.sameType a b) then
            some (if equality then .lt else (compare ai bi).then (compare av bv))
          else none
      | _, _ => none
  | _, _ => none

/-- What a pair of items comes to. -/
inductive Relation
  | decided (order : Option Ordering)
  | sequences (left right : Sequence)
  | objects (left right : List (Text × Value))

namespace Store

/-! ## Views -/

/-- The payload of an item that is an entry. -/
def itemPayload (s : Store) : Item → Except Error (Option Payload)
  | .value (.heap h) => (s.payload h).map some
  | _ => .ok none

/-- `item_type`: the name of an item's type. -/
def itemType (s : Store) : Item → Except Error TypeName
  | .text _ => .ok .string
  | .pair _ _ => .ok .tuple
  | .value (.heap h) => do
      let _ ← s.payload h
      okOr (s.diagnosticType (.heap h)) (primitive .invalidCode)
  | .value v => okOr (TypeName.primitive v) (primitive .invalidCode)

/-- `nominal_sequence`: the fields of a declared struct. -/
def nominalSequence (s : Store) (item : Item) : Except Error Sequence := do
  match ← s.itemPayload item with
  | some (.list (.struct _) values) => .ok (.values values.items)
  | some (.record (.struct _) fields) => .ok (.fields fields.items)
  | _ => .error (primitive .invalidCode)

/-- `unsupported_pair`. -/
def unsupportedPair (s : Store) (op : Binary) (a b : Item) : Error :=
  match s.itemType a, s.itemType b with
  | .ok lhs, .ok rhs => (primitive .type).withDetail (.binary (.fromOp op false) lhs rhs)
  | .error e, _ => e
  | _, .error e => e

/-- `expected_pair`. -/
def expectedPair (s : Store) (expected : TypeName) (found : Item) : Error :=
  match s.itemType found with
  | .ok found => (primitive .type).withDetail (.expectedType expected found)
  | .error e => e

/-- `item_text`: the text of an item that is one. -/
def itemText (s : Store) (item : Item) : Except Error (Option (List Char)) :=
  match item with
  | .text chars => .ok (some chars)
  | _ => do
      match ← s.itemPayload item with
      | some (.string text) => .ok (some text.chars)
      | _ => .ok none

/-- `list_view`: the elements of a vector or a tuple, whichever `tag` is. -/
def listView (s : Store) (item : Item) (tag : Ty) : Except Error (Option Sequence) :=
  match item with
  | .pair key v => .ok (if tag = .tuple then some (.pair key v) else none)
  | .value .unit => .ok (if tag = .tuple then some (.values []) else none)
  | _ => do
      match ← s.itemPayload item with
      | some (.list actual values) =>
          .ok (if actual.eqv s.nominals tag then some (.values values.items) else none)
      | _ => .ok none

/-- `iterable_view`: the items of what can be iterated. -/
def iterableView (s : Store) (item : Item) : Except Error Sequence := do
  let missing : Except Error Sequence := do
    let found ← s.itemType item
    .error ((primitive .type).withDetail (.missingIntoIter found))
  match item with
  | .pair key v => .ok (.pair key v)
  | .value .unit => .ok (.values [])
  | _ =>
      match ← s.itemPayload item with
      | some (.list _ values) => .ok (.values values.items)
      | some (.record .object fields) => .ok (.pairs fields.items)
      | some (.range start finish) => .ok (.range start finish)
      | some (.valueRange start finish) => do
          match ← s.rangeIterationBounds start finish with
          | (.i64 a, .i64 b) => .ok (.range a b)
          | (.u64 a, .u64 b) => .ok (.unsignedRange a b)
          | (.char a, .char b) => .ok (.charRange a b)
          | _ => .error (primitive .invalidCode)
      | some (.variant .option _ payload) => .ok (.one payload)
      | _ => missing

/-- The endpoints of a range of another shape. -/
def shapeSequence (shape : RangeShape) : Sequence :=
  match shape.start, shape.finish with
  | some start, some finish => .bounds start finish
  | some v, none => .one (some v)
  | none, some v => .one (some v)
  | none, none => .one none

/-! ## One pair -/

section

variable (F : FloatOps) (T : TypeTable) (op : Binary) (method : Bool)

/-- The operators that only ask whether two values are equal. -/
def isEquality (op : Binary) : Bool := op == .eq || op == .ne

/-- Two values of which the left one is no entry. -/
def relateScalars (s : Store) (rhs : TypeName) (a b : Value) : Except Error Relation :=
  match IntValue.of a, b with
  | some _, .unit | some _, .bool _ | some _, .f64 _ | some _, .char _ | some _, .ordering _
  | some _, .type _ => .error ((primitive .type).withDetail (.expectedNumber rhs))
  | _, _ =>
      match a, b with
      | .type a, .type b => do
          let left ← T.typeHash a
          let right ← T.typeHash b
          .ok (.decided (some (compare left right)))
      | _, _ => do
          let eq ← (Exec.lift (Exec.arithmeticBinary F .eq a b)).mapError fun e =>
            if e.kind = .type then s.unsupportedPair op (.value a) (.value b) else e
          if eq = .bool true then .ok (.decided (some .eq))
          else if isEquality op then .ok (.decided (some .lt))
          else do
            let lt ← Exec.lift (Exec.arithmeticBinary F .lt a b)
            let gt ← Exec.lift (Exec.arithmeticBinary F .gt a b)
            let order := if lt = .bool true then some .lt
              else if gt = .bool true then some .gt else none
            match method, order, a, b with
            | true, none, .f64 x, .f64 y =>
                .error ((Error.new .illegalFloatComparison "Method").withDetail
                  (.floatComparison x.bits y.bits))
            | _, _, _, _ => .ok (.decided order)

/-- Two items of which the left one is an entry that is no text, vector or tuple. -/
def relateEntries (s : Store) (lhs : TypeName) (p : Payload) (a b : Item) :
    Except Error Relation :=
  match p with
  | .list (.struct n) values => do
      match ← s.itemPayload b with
      | some (.list (.struct m) other) =>
          if n == m || s.nominals.sameType n m then
            .ok (.sequences (.values values.items) (.values other.items))
          else .error (s.unsupportedPair op a b)
      | _ => .error (s.unsupportedPair op a b)
  | .record tag fields =>
      if tag = .object ∧ isEquality op = false then .error (s.unsupportedPair op a b)
      else do
        let refused := if tag = .object then s.expectedPair lhs b else s.unsupportedPair op a b
        match ← s.itemPayload b with
        | some (.record t other) =>
            if t.eqv s.nominals tag = false then .error refused
            else if isEquality op ∧ fields.items.length ≠ other.items.length then
              .ok (.decided (some .lt))
            else if tag = .object then .ok (.objects fields.items other.items)
            else .ok (.sequences (.fields fields.items) (.fields other.items))
        | _ => .error refused
  | .variant tag success payload => do
      match ← s.itemPayload b with
      | some (.variant t success' payload') =>
          if t.eqv s.nominals tag = false then .error (s.expectedPair lhs b)
          else if success ≠ success' then .ok (.decided (some (compare success success')))
          else .ok (.sequences (.one payload) (.one payload'))
      | _ => .error (s.expectedPair lhs b)
  | .otherRange shape =>
      if method then do
        match ← s.itemPayload b with
        | some (.otherRange other) =>
            if shape.tag.eqv s.nominals other.tag then
              .ok (.sequences (shapeSequence shape) (shapeSequence other))
            else .error (s.expectedPair lhs b)
        | _ => .error (s.expectedPair lhs b)
      else .error (s.unsupportedPair op a b)
  | .range .. | .valueRange .. => do
      let (start, finish) ← rangeEndpoints p
      match ← s.itemPayload b with
      | some other =>
          match other with
          | .range .. | .valueRange .. => do
              let (start', finish') ← rangeEndpoints other
              .ok (.sequences (.bounds start finish) (.bounds start' finish'))
          | _ => .error (s.expectedPair lhs b)
      | none => .error (s.expectedPair lhs b)
  | _ => .error (s.unsupportedPair op a b)

/-- Two items of which the left one is a vector, a tuple or unit. -/
def relateLists (s : Store) (lhs : TypeName) (tag : Ty) (left : Sequence) (a b : Item) :
    Except Error Relation :=
  if a = .value .unit ∧ method = false then
    if b = .value .unit then .ok (.decided (some .eq)) else .error (s.unsupportedPair op a b)
  else if isEquality op then do
    let right ← s.iterableView b
    .ok (.sequences left right)
  else do
    match ← s.listView b tag with
    | some right => .ok (.sequences left right)
    | none => .error (s.expectedPair lhs b)

/-- What two items come to: the arm of `compare_order` for a pair, below the depth limit. -/
def relate (s : Store) (a b : Item) : Except Error Relation := do
  let lhs ← s.itemType a
  let rhs ← s.itemType b
  match variantOrder s.nominals T (isEquality op) lhs rhs with
  | some order => .ok (.decided (some order))
  | none =>
      let struct := match lhs, rhs with
        | .struct _, .struct _ => lhs.eqv s.nominals rhs
        | _, _ => false
      if struct then do
        let left ← s.nominalSequence a
        let right ← s.nominalSequence b
        .ok (.sequences left right)
      else if lhs = .string then do
        let left ← okOr (← s.itemText a) (primitive .invalidCode)
        let right ← okOr (← s.itemText b) (s.expectedPair .string b)
        .ok (.decided (some (textOrder left right)))
      else do
        let tag := if lhs = .vec then .vec else .tuple
        match ← s.listView a tag with
        | some left => s.relateLists op method lhs tag left a b
        | none =>
            match a, b with
            | .value (.heap h), _ => do
                let p ← s.payload h
                s.relateEntries op method lhs p a b
            | .value v, .value w => s.relateScalars F T op method rhs v w
            | _, _ => .error (s.unsupportedPair op a b)

/-! ## The walk -/

/-- What waits to be compared. -/
inductive Task
  | pair (a b : Item) (depth : Nat)
  | sequence (a b : Sequence) (index depth : Nat)
  | object (a b : List (Text × Value)) (index depth : Nat)

/-- The pairs a walk may be deep: the receiver of a method is one level outside of it. -/
def depthLimit (method : Bool) : Nat := if method then 65 else 64

/-- One round of the loop; what is asked first is pushed last. -/
def compareTask (s : Store) : Task → Except Error (Decision.Step Task (Option Ordering))
  | .sequence a b index depth =>
      match a.get index, b.get index with
      | some x, some y => .ok (.ask [.pair x y (depth + 1), .sequence a b (index + 1) depth])
      | none, none => .ok (.answer (some .eq))
      | none, some _ => .ok (.answer (some .lt))
      | some _, none => .ok (.answer (some .gt))
  | .object a b index depth =>
      match a[index]? with
      | some (key, v) =>
          match b.find? fun f => f.1.chars = key.chars with
          | some (_, w) =>
              .ok (.ask [.pair (.value v) (.value w) (depth + 1), .object a b (index + 1) depth])
          | none => .ok (.answer (some .lt))
      | none => .ok (.answer (some .eq))
  | .pair a b depth =>
      if depth > depthLimit method then .error ((primitive .valueDepth).withDetail .valueDepth)
      else do
        match ← s.relate F T op method a b with
        | .decided order => .ok (.answer order)
        | .sequences left right => .ok (.ask [.sequence left right 0 depth])
        | .objects left right => .ok (.ask [.object left right 0 depth])

/-- The loop of `compare_order` over its stack. -/
def comparing (s : Store) (room : Nat → Bool) :
    Decision.Engine Task (Option Ordering) Error where
  neutral := some .eq
  handle := s.compareTask F T op method
  room := room
  full := allocError

/-- `compare_order`, for as many rounds as there is fuel. -/
def compareOrder (s : Store) (room : Nat → Bool) (fuel : Nat) (a b : Value) :
    Option (Except Error (Option Ordering)) :=
  (s.comparing F T op method room).run fuel 0 [.pair (.value a) (.value b) 1]

/-- `compare_order` as a program calls it: the store is only read.  There is no answer while the
fuel is too little. -/
def ordering (room : Nat → Bool) (fuel : Nat) (a b : Value) : M (Option (Option Ordering)) :=
  read fun s =>
    match s.compareOrder F T op method room fuel a b with
    | some result => result.map some
    | none => .ok none

variable {s F T op method}

lemma ordering_answered {room : Nat → Bool} {fuel : Nat} {a b : Value}
    {r : Except Error (Option Ordering)} (h : s.compareOrder F T op method room fuel a b = some r) :
    ordering F T op method room fuel a b s = (r.map some, s) := by
  unfold ordering ErrState.read
  dsimp only
  rw [h]

end

end Store

end Rnx
