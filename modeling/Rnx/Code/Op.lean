import Rnx.Store.Value

/-!
# Instructions

The operations of `code.rs`, the fixed-width instructions they are packed into, and the decoder
that unpacks an instruction against the pools of its function.  The charge bit of an opcode is a
field of its own.
-/

namespace Rnx

/-- The error of the validator and of the decoder. -/
def invalid : Error := .new .invalidCode "validate code"

/-- `u32::checked_add`. -/
def checkedAdd32 (a b : Nat) : Option Nat := if a + b ≤ u32Max then some (a + b) else none

lemma checkedAdd32_eq_some {a b c : Nat} (h : checkedAdd32 a b = some c) :
    c = a + b ∧ a + b ≤ u32Max := by
  unfold checkedAdd32 at h
  split_ifs at h with hle
  exact ⟨(Option.some.inj h).symm, hle⟩

/-! ## Operators -/

/-- The binary operators. -/
inductive Binary
  | add | sub | mul | div | rem | eq | ne | lt | le | gt | ge | bitAnd | bitOr | bitXor | shl | shr
deriving DecidableEq, Repr

/-- The unary operators. -/
inductive Unary
  | neg | not
deriving DecidableEq, Repr

/-- Built-in clone, or dispatch of the associated method. -/
inductive CloneMode
  | associated | global
deriving DecidableEq, Repr

/-! ## Operations -/

/-- The operations.  Operands name slots of the frame, positions of the pools, or targets. -/
inductive Op
  | template (out argsStart argsLen : Nat)
  | print (value : Nat)
  | tupleFieldGetMut (out value index : Nat)
  | tupleFieldSetMut (value index new : Nat)
  | tupleField (out value index : Nat)
  | setTupleField (value index new : Nat)
  | record (out : Nat) (tag : Ty) (argsStart argsLen : Nat)
  | fieldGetMut (out value key : Nat)
  | fieldSetMut (value key new : Nat)
  | field (out value key : Nat)
  | setField (value key new : Nat)
  | variant (out : Nat) (tag : Ty) (success : Bool) (payload : Option Nat)
  | tryValue (out value : Nat)
  | callValue (out value argsStart argsLen : Nat)
  | range (out start finish : Nat)
  | iterStart (out value : Nat)
  | iterNext (out iterator none : Nat)
  | string (out text : Nat)
  | stringFrom (out value : Nat)
  | panic (value : Nat)
  | clone (out value : Nat) (mode : CloneMode)
  | assignBinary (out : Nat) (op : Binary) (lhs rhs : Nat)
  | literal (out : Nat) (value : Value)
  | copy (out value : Nat)
  | release (value : Nat)
  | unary (out : Nat) (op : Unary) (value : Nat)
  | binary (out : Nat) (op : Binary) (lhs rhs : Nat)
  | cast (out value : Nat) (tag : Ty)
  | is (out value : Nat) (tag : Ty) (negate : Bool)
  | jump (target : Nat)
  | branch (condition yes no : Nat)
  | call (out function argsStart argsLen : Nat)
  | returnValue (value : Nat)
  | list (out : Nat) (tag : Ty) (argsStart argsLen : Nat)
  | get (out value index : Nat)
  | set (value index new : Nat)
  | len (out value : Nat)
  | push (value new : Nat)
  | drop (value : Nat)
deriving DecidableEq

/-- A packed instruction. -/
structure Instruction where
  opcode : Nat
  charged : Bool
  a : Nat
  b : Nat
  c : Nat
deriving DecidableEq

/-- A decoded instruction. -/
structure CachedInstruction where
  op : Op
  charged : Bool
deriving DecidableEq

/-- A function: its packed code, its pools and the size of its frame. -/
structure Function where
  cached : List CachedInstruction
  constants : List Value
  types : List Ty
  ranges : List (Nat × Nat)
  strings : List (List Char)
  code : List Instruction
  args : List Nat
  slots : Nat
  parameters : Nat
deriving DecidableEq

/-! ## Decoding -/

/-- `binary_code`. -/
def binaryCode : Nat → Option Binary
  | 0 => some .add
  | 1 => some .sub
  | 2 => some .mul
  | 3 => some .div
  | 4 => some .rem
  | 5 => some .eq
  | 6 => some .ne
  | 7 => some .lt
  | 8 => some .le
  | 9 => some .gt
  | 10 => some .ge
  | 11 => some .bitAnd
  | 12 => some .bitOr
  | 13 => some .bitXor
  | 14 => some .shl
  | 15 => some .shr
  | _ => none

/-- The opcodes of the two families of binary operators. -/
def decodeBinary (opcode a b c : Nat) : Option Op :=
  if 200 ≤ opcode then (binaryCode (opcode - 200)).map (.assignBinary a · b c)
  else if 100 ≤ opcode then (binaryCode (opcode - 100)).map (.binary a · b c)
  else none

namespace Function

/-- An argument range from the pool, handed to the operation that takes it. -/
def decodeRange (f : Function) (n : Nat) (k : Nat → Nat → Op) : Option Op :=
  f.ranges[n]?.map fun r => k r.1 r.2

/-- A type from the pool, handed to the operation that takes it. -/
def decodeTag (f : Function) (n : Nat) (k : Ty → Op) : Option Op := f.types[n]?.map k

/-- A type and an argument range. -/
def decodeTagRange (f : Function) (n m : Nat) (k : Ty → Nat → Nat → Op) : Option Op :=
  f.types[n]?.bind fun t => f.ranges[m]?.map fun r => k t r.1 r.2

/-- The operation an instruction packs. -/
def decode? (f : Function) (i : Instruction) : Option Op :=
  match i.opcode with
  | 34 => f.decodeRange i.b (.template i.a)
  | 35 => some (.print i.a)
  | 36 => some (.tupleFieldGetMut i.a i.b i.c)
  | 37 => some (.tupleFieldSetMut i.a i.b i.c)
  | 32 => some (.tupleField i.a i.b i.c)
  | 33 => some (.setTupleField i.a i.b i.c)
  | 29 => f.decodeTagRange i.b i.c (.record i.a)
  | 38 => some (.fieldGetMut i.a i.b i.c)
  | 40 => some (.stringFrom i.a i.b)
  | 41 => some (.panic i.a)
  | 39 => some (.fieldSetMut i.a i.b i.c)
  | 30 => some (.field i.a i.b i.c)
  | 31 => some (.setField i.a i.b i.c)
  | 0 => f.constants[i.b]?.map (.literal i.a)
  | 1 => some (.string i.a i.b)
  | 2 => some (.copy i.a i.b)
  | 3 =>
      if i.c = 0 then some (.clone i.a i.b .associated)
      else if i.c = 1 then some (.clone i.a i.b .global)
      else none
  | 4 => some (.release i.a)
  | 5 => some (.unary i.a .neg i.b)
  | 6 => some (.unary i.a .not i.b)
  | 7 => f.decodeTag i.c (.cast i.a i.b)
  | 8 => f.decodeTag i.c (.is i.a i.b · false)
  | 9 => f.decodeTag i.c (.is i.a i.b · true)
  | 10 => some (.jump i.a)
  | 11 => some (.branch i.a i.b i.c)
  | 12 => f.decodeRange i.c (.call i.a i.b)
  | 13 => some (.returnValue i.a)
  | 14 => f.decodeTagRange i.b i.c (.list i.a)
  | 15 => some (.get i.a i.b i.c)
  | 16 => some (.set i.a i.b i.c)
  | 17 => some (.len i.a i.b)
  | 18 => some (.push i.a i.b)
  | 19 => some (.drop i.a)
  | 20 => some (.range i.a i.b i.c)
  | 21 => some (.iterStart i.a i.b)
  | 22 => some (.iterNext i.a i.b i.c)
  | 23 => f.decodeRange i.c (.callValue i.a i.b)
  | 24 => some (.variant i.a .option true (some i.b))
  | 25 => some (.variant i.a .option false none)
  | 26 => some (.variant i.a .result true (some i.b))
  | 27 => some (.variant i.a .result false (some i.b))
  | 28 => some (.tryValue i.a i.b)
  | n => decodeBinary n i.a i.b i.c

/-- `Function::decode`. -/
def decode (f : Function) (i : Instruction) : Except Error Op := okOr (f.decode? i) invalid

/-- `Function::operation`: the operation at `pc`. -/
def operation (f : Function) (pc : Nat) : Except Error Op := do
  let i ← okOr f.code[pc]? invalid
  f.decode i

/-- Decoding reads the operands and the pools, not the charge bit. -/
@[simp] lemma decode?_charged (f : Function) (i : Instruction) (b : Bool) :
    f.decode? { i with charged := b } = f.decode? i := rfl

@[simp] lemma decode_charged (f : Function) (i : Instruction) (b : Bool) :
    f.decode { i with charged := b } = f.decode i := rfl

end Function

end Rnx
