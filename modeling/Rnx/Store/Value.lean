import Mathlib.Algebra.BigOperators.Group.List.Basic
import Mathlib.Algebra.BigOperators.Intervals
import Mathlib.Algebra.Order.BigOperators.Group.Finset
import Rnx.Lib.Outcome

/-!
# Values, types and errors of the execution core

The tagged slot values of `value.rs`, the growable buffers the heap charges for, and the errors
the store reports.  Machine integers are bounded by their own types (`I64`, `U64`); a float is
its bit pattern, of which only equality is ever inspected here; text is a list of characters
whose length is counted in UTF-8 bytes, as the source counts it.

Handles compare as plain data.  Nominal types do not: `value.rs` compares them through the
process-wide table of declared types, which is passed around as a `Nominals`.
-/

namespace Rnx

/-! ## Machine integers -/

/-- The largest `usize`. -/
def usizeMax : Nat := 2 ^ 64 - 1

/-- The largest `u32`, also the reader count that marks an exclusively held entry. -/
def u32Max : Nat := 2 ^ 32 - 1

/-- The largest `isize`: no allocation is bigger, and no store charges more. -/
def isizeMax : Nat := 2 ^ 63 - 1

/-- `usize::checked_add`. -/
def checkedAdd (a b : Nat) : Option Nat := if a + b ≤ usizeMax then some (a + b) else none

/-- `usize::checked_sub`. -/
def checkedSub (a b : Nat) : Option Nat := if b ≤ a then some (a - b) else none

/-- `usize::checked_mul`. -/
def checkedMul (a b : Nat) : Option Nat := if a * b ≤ usizeMax then some (a * b) else none

lemma checkedAdd_eq_some {a b c : Nat} (h : checkedAdd a b = some c) : c = a + b := by
  unfold checkedAdd at h
  split_ifs at h
  exact (Option.some.inj h).symm

lemma checkedSub_eq_some {a b c : Nat} (h : checkedSub a b = some c) : b ≤ a ∧ c = a - b := by
  unfold checkedSub at h
  split_ifs at h with hb
  exact ⟨hb, (Option.some.inj h).symm⟩

lemma checkedMul_eq_some {a b c : Nat} (h : checkedMul a b = some c) : c = a * b := by
  unfold checkedMul at h
  split_ifs at h
  exact (Option.some.inj h).symm

lemma checkedMul_le {a b c : Nat} (h : checkedMul a b = some c) : a * b ≤ usizeMax := by
  unfold checkedMul at h
  split_ifs at h with hle
  exact hle

lemma checkedAdd_of_le {a b : Nat} (h : a + b ≤ usizeMax) : checkedAdd a b = some (a + b) := if_pos h

lemma checkedSub_of_le {a b : Nat} (h : b ≤ a) : checkedSub a b = some (a - b) := if_pos h

/-- A signed 64-bit integer. -/
structure I64 where
  val : Int
  lower : -2 ^ 63 ≤ val
  upper : val < 2 ^ 63
deriving DecidableEq

/-- An unsigned 64-bit integer. -/
structure U64 where
  val : Nat
  upper : val < 2 ^ 64
deriving DecidableEq

namespace I64

@[ext] lemma ext {a b : I64} (h : a.val = b.val) : a = b := by
  cases a
  cases b
  congr

/-- The value of an integer that fits. -/
def ofInt? (n : Int) : Option I64 :=
  if h : -2 ^ 63 ≤ n ∧ n < 2 ^ 63 then some ⟨n, h.1, h.2⟩ else none

lemma two_lt : 2 < 2 ^ 63 := by decide

/-- A small literal. -/
def ofNat (n : Nat) (h : n < 2 ^ 63) : I64 := ⟨n, by omega, by omega⟩

/-- `i64::checked_add(1)`, the step of every integer range. -/
def succ? (a : I64) : Option I64 := ofInt? (a.val + 1)

lemma ofInt?_eq_some {n : Int} {a : I64} : ofInt? n = some a ↔ a.val = n := by
  unfold ofInt?
  constructor
  · intro h
    split_ifs at h with hn
    rw [← Option.some.inj h]
  · rintro rfl
    rw [dif_pos ⟨a.lower, a.upper⟩]

lemma succ?_eq_some {a b : I64} : a.succ? = some b ↔ b.val = a.val + 1 := ofInt?_eq_some

end I64

namespace U64

/-- The value of an integer that fits. -/
def ofNat? (n : Nat) : Option U64 := if h : n < 2 ^ 64 then some ⟨n, h⟩ else none

/-- `u64::checked_add(1)`. -/
def succ? (a : U64) : Option U64 := ofNat? (a.val + 1)

@[ext] lemma ext {a b : U64} (h : a.val = b.val) : a = b := by
  cases a
  cases b
  congr

lemma ofNat?_eq_some {n : Nat} {a : U64} : ofNat? n = some a ↔ a.val = n := by
  unfold ofNat?
  constructor
  · intro h
    split_ifs at h with hn
    rw [← Option.some.inj h]
  · rintro rfl
    rw [dif_pos a.upper]

lemma succ?_eq_some {a b : U64} : a.succ? = some b ↔ b.val = a.val + 1 := ofNat?_eq_some

end U64

/-- A float as its IEEE 754 bit pattern. -/
structure F64 where
  bits : BitVec 64
deriving DecidableEq

namespace F64

/-- All exponent bits set and a fraction that is not zero. -/
def isNan (a : F64) : Bool := (a.bits &&& 0x7FFFFFFFFFFFFFFF#64).toNat > 0x7FF0000000000000

/-- Either of the two zeros. -/
def isZero (a : F64) : Bool := (a.bits &&& 0x7FFFFFFFFFFFFFFF#64) == 0#64

/-- `f64`'s `==`: a NaN equals nothing, the two zeros equal each other. -/
def eqv (a b : F64) : Bool := !a.isNan && !b.isNan && (a.bits == b.bits || (a.isZero && b.isZero))

end F64

/-! ## Types and values -/

/-- An entry of one store. -/
structure Handle where
  slot : Nat
  generation : Nat
deriving DecidableEq, Repr

/-- An index into the process-wide table of declared types. -/
structure Nominal where
  id : Nat
deriving DecidableEq, Repr

/-- How a declared type lays out its fields. -/
inductive Shape
  | named
  | empty
  | tuple (arity : Nat)
deriving DecidableEq, Repr

/-- The process-wide table of declared types, as the store consults it. -/
structure Nominals where
  sameType : Nominal → Nominal → Bool
  shape : Nominal → Option Shape
  sameVariant : Nominal → Nat → Bool

/-- The type of a value. -/
inductive Ty
  | unit | bool | i64 | u64 | f64 | char | ordering | string | vec | tuple | object
  | struct (nominal : Nominal)
  | option | result | range | iterator | function
  | rangeFrom | rangeFull | rangeInclusive | rangeToInclusive | rangeTo
deriving DecidableEq, Repr

/-- The executor's slot value. -/
inductive Value
  | unit
  | bool (b : Bool)
  | i64 (n : I64)
  | u64 (n : U64)
  | f64 (x : F64)
  | char (c : Char)
  | ordering (o : Ordering)
  | heap (h : Handle)
  | function (code id : Nat)
  | type (t : Ty)
deriving DecidableEq

namespace Ty

/-- The derived `PartialEq`, which compares declared types through the table. -/
def eqv (N : Nominals) : Ty → Ty → Bool
  | struct a, struct b => a == b || N.sameType a b
  | a, b => a == b

/-- The range shapes other than `start..end`. -/
def isOtherRange : Ty → Bool
  | rangeFrom | rangeFull | rangeInclusive | rangeToInclusive | rangeTo => true
  | _ => false

end Ty

namespace Value

/-- The derived `PartialEq`: floats compare as floats, types through the table. -/
def eqv (N : Nominals) : Value → Value → Bool
  | f64 a, f64 b => a.eqv b
  | type a, type b => a.eqv N b
  | a, b => a == b

/-- The type of a value that is not a handle; functions and types have none. -/
def primitiveType : Value → Option Ty
  | unit => some .unit
  | bool _ => some .bool
  | i64 _ => some .i64
  | u64 _ => some .u64
  | f64 _ => some .f64
  | char _ => some .char
  | ordering _ => some .ordering
  | heap _ | function _ _ | type _ => none

/-- Whether a value is a handle (`Store::heap_edge` counts it as an edge). -/
def isHeap : Value → Bool
  | heap _ => true
  | _ => false

/-- `Store::heap_edge`. -/
def heapEdge (v : Value) : Nat := if v.isHeap then 1 else 0

/-- The references to `h` that a value is: one for its own handle, none otherwise. -/
def refs (v : Value) (h : Handle) : Nat := if v = heap h then 1 else 0

@[simp] lemma heapEdge_heap (h : Handle) : (heap h).heapEdge = 1 := rfl

@[simp] lemma refs_self (h : Handle) : (heap h).refs h = 1 := if_pos rfl

lemma refs_of_ne {h k : Handle} (hk : h ≠ k) : (heap h).refs k = 0 :=
  if_neg (fun e => hk (heap.inj e))

lemma refs_of_not_heap {v : Value} (hv : v.isHeap = false) (h : Handle) : v.refs h = 0 := by
  refine if_neg ?_
  rintro rfl
  cases hv

lemma heapEdge_of_not_heap {v : Value} (hv : v.isHeap = false) : v.heapEdge = 0 := by
  unfold heapEdge
  rw [hv]
  rfl

lemma refs_le_heapEdge (v : Value) (h : Handle) : v.refs h ≤ v.heapEdge := by
  unfold refs
  split_ifs with hv
  · exact Nat.le_of_eq (by rw [hv, heapEdge_heap])
  · exact Nat.zero_le _

/-- An equal value owns the same references: only floats and types compare loosely. -/
lemma refs_eq_of_eqv {N : Nominals} {v w : Value} (h : v.eqv N w = true) (k : Handle) :
    v.refs k = w.refs k := by
  cases v <;> cases w <;> simp_all [eqv, refs]

lemma heapEdge_eq_of_eqv {N : Nominals} {v w : Value} (h : v.eqv N w = true) :
    v.heapEdge = w.heapEdge := by
  cases v <;> cases w <;> simp_all [eqv, heapEdge, isHeap]

end Value

/-! ## References held by a list of values -/

/-- The references to `h` among `l`. -/
def refsIn (l : List Value) (h : Handle) : Nat := (l.map (·.refs h)).sum

/-- The heap edges among `l`. -/
def edgesIn (l : List Value) : Nat := (l.map Value.heapEdge).sum

@[simp] lemma refsIn_nil (h : Handle) : refsIn [] h = 0 := rfl

@[simp] lemma refsIn_cons (v : Value) (l : List Value) (h : Handle) :
    refsIn (v :: l) h = v.refs h + refsIn l h := by
  simp [refsIn]

@[simp] lemma refsIn_append (l r : List Value) (h : Handle) :
    refsIn (l ++ r) h = refsIn l h + refsIn r h := by
  simp [refsIn]

@[simp] lemma edgesIn_nil : edgesIn [] = 0 := rfl

@[simp] lemma edgesIn_cons (v : Value) (l : List Value) :
    edgesIn (v :: l) = v.heapEdge + edgesIn l := by
  simp [edgesIn]

@[simp] lemma edgesIn_append (l r : List Value) : edgesIn (l ++ r) = edgesIn l + edgesIn r := by
  simp [edgesIn]

lemma refsIn_le_edgesIn (l : List Value) (h : Handle) : refsIn l h ≤ edgesIn l := by
  induction l with
  | nil => simp
  | cons v l ih =>
      have := v.refs_le_heapEdge h
      simp only [refsIn_cons, edgesIn_cons]
      omega

lemma refsIn_pos_of_mem {l : List Value} {h : Handle} (hm : Value.heap h ∈ l) :
    0 < refsIn l h := by
  obtain ⟨a, b, rfl⟩ := List.append_of_mem hm
  simp only [refsIn_append, refsIn_cons, Value.refs_self]
  omega

lemma mem_of_refsIn_pos {l : List Value} {h : Handle} (hp : 0 < refsIn l h) :
    Value.heap h ∈ l := by
  induction l with
  | nil => simp at hp
  | cons v l ih =>
      rw [refsIn_cons] at hp
      by_cases hv : v = .heap h
      · exact hv ▸ List.mem_cons_self
      · have h0 : v.refs h = 0 := if_neg hv
        exact List.mem_cons_of_mem _ (ih (by omega))

/-- Replacing one element exchanges its references for the new one's. -/
lemma refsIn_set {l : List Value} {i : Nat} {old : Value} (hi : l[i]? = some old) (new : Value)
    (h : Handle) : refsIn (l.set i new) h + old.refs h = refsIn l h + new.refs h := by
  induction l generalizing i with
  | nil => simp at hi
  | cons v l ih =>
      cases i with
      | zero =>
          obtain rfl : v = old := by simpa using hi
          simp
          omega
      | succ i =>
          have := ih (i := i) (by simpa using hi)
          simp only [List.set_cons_succ, refsIn_cons]
          omega

lemma edgesIn_set {l : List Value} {i : Nat} {old : Value} (hi : l[i]? = some old)
    (new : Value) : edgesIn (l.set i new) + old.heapEdge = edgesIn l + new.heapEdge := by
  induction l generalizing i with
  | nil => simp at hi
  | cons v l ih =>
      cases i with
      | zero =>
          obtain rfl : v = old := by simpa using hi
          simp
          omega
      | succ i =>
          have := ih (i := i) (by simpa using hi)
          simp only [List.set_cons_succ, edgesIn_cons]
          omega

/-- Removing one element gives its references up. -/
lemma refsIn_eraseIdx {l : List Value} {i : Nat} {old : Value} (hi : l[i]? = some old)
    (h : Handle) : refsIn (l.eraseIdx i) h + old.refs h = refsIn l h := by
  induction l generalizing i with
  | nil => simp at hi
  | cons v l ih =>
      cases i with
      | zero =>
          obtain rfl : v = old := by simpa using hi
          simp
          omega
      | succ i =>
          have := ih (i := i) (by simpa using hi)
          simp only [List.eraseIdx_cons_succ, refsIn_cons]
          omega

lemma edgesIn_eraseIdx {l : List Value} {i : Nat} {old : Value} (hi : l[i]? = some old) :
    edgesIn (l.eraseIdx i) + old.heapEdge = edgesIn l := by
  induction l generalizing i with
  | nil => simp at hi
  | cons v l ih =>
      cases i with
      | zero =>
          obtain rfl : v = old := by simpa using hi
          simp
          omega
      | succ i =>
          have := ih (i := i) (by simpa using hi)
          simp only [List.eraseIdx_cons_succ, edgesIn_cons]
          omega

/-- The order of the elements does not matter. -/
lemma refsIn_perm {l r : List Value} (hp : l.Perm r) (h : Handle) : refsIn l h = refsIn r h :=
  (hp.map _).sum_eq

lemma edgesIn_perm {l r : List Value} (hp : l.Perm r) : edgesIn l = edgesIn r :=
  (hp.map _).sum_eq

/-! ## Buffers -/

/-- A growable vector: its elements and the capacity its allocation was charged for. -/
structure Buf (α : Type) where
  items : List α
  capacity : Nat
  fits : items.length ≤ capacity
deriving DecidableEq

namespace Buf

variable {α : Type}

/-- `Vec::new()`. -/
def empty : Buf α := ⟨[], 0, Nat.le_refl _⟩

/-- A buffer reserved for `capacity` elements and then filled with `items`; no caller fills it
past its reservation, so the capacity is the reserved one. -/
def filled (capacity : Nat) (items : List α) : Buf α :=
  ⟨items, max capacity items.length, Nat.le_max_right _ _⟩

/-- An exact copy of `items`. -/
def copy (items : List α) : Buf α := ⟨items, items.length, Nat.le_refl _⟩

/-- Overwrite one element. -/
def set (b : Buf α) (i : Nat) (x : α) : Buf α := ⟨b.items.set i x, b.capacity, by
  rw [List.length_set]
  exact b.fits⟩

/-- Shift-remove one element. -/
def remove (b : Buf α) (i : Nat) : Buf α := ⟨b.items.eraseIdx i, b.capacity,
  Nat.le_trans (List.length_eraseIdx_le b.items i) b.fits⟩

/-- Keep a prefix; the allocation stays. -/
def truncate (b : Buf α) (n : Nat) : Buf α := ⟨b.items.take n, b.capacity, by
  have := b.fits
  rw [List.length_take]
  omega⟩

/-- `push_within_capacity`. -/
def pushWithin (b : Buf α) (x : α) : Option (Buf α) :=
  if h : b.items.length < b.capacity then
    some ⟨b.items ++ [x], b.capacity, by
      rw [List.length_append, List.length_singleton]
      exact h⟩
  else
    none

lemma pushWithin_eq_some {b c : Buf α} {x : α} (h : b.pushWithin x = some c) :
    c.items = b.items ++ [x] ∧ c.capacity = b.capacity := by
  unfold pushWithin at h
  split_ifs at h
  rw [← Option.some.inj h]
  exact ⟨rfl, rfl⟩

end Buf

/-- The UTF-8 length of a text. -/
def utf8Len (t : List Char) : Nat := (t.map (·.utf8Size)).sum

@[simp] lemma utf8Len_append (t u : List Char) : utf8Len (t ++ u) = utf8Len t + utf8Len u := by
  simp [utf8Len]

/-- A string: its characters and the byte capacity its allocation was charged for. -/
structure Text where
  chars : List Char
  capacity : Nat
  fits : utf8Len chars ≤ capacity
deriving DecidableEq

namespace Text

/-- The length in bytes. -/
def len (t : Text) : Nat := utf8Len t.chars

/-- A string reserved for `capacity` bytes and filled with `chars`. -/
def filled (capacity : Nat) (chars : List Char) : Text :=
  ⟨chars, max capacity (utf8Len chars), Nat.le_max_right _ _⟩

/-- `String::try_from(&str)`: an exact copy. -/
def copy (chars : List Char) : Text := ⟨chars, utf8Len chars, Nat.le_refl _⟩

/-- `push_str` within the capacity. -/
def pushWithin (t : Text) (chars : List Char) : Option Text :=
  if h : t.len + utf8Len chars ≤ t.capacity then
    some ⟨t.chars ++ chars, t.capacity, by rwa [utf8Len_append]⟩
  else
    none

end Text

/-- `&str::get(from..)`: the text from a byte offset on, if that is a character boundary. -/
def textFrom : List Char → Nat → Option (List Char)
  | t, 0 => some t
  | [], _ + 1 => none
  | c :: t, n + 1 => if c.utf8Size ≤ n + 1 then textFrom t (n + 1 - c.utf8Size) else none

/-- The prefix of `n` bytes, if that is a character boundary. -/
def textUpto : List Char → Nat → Option (List Char)
  | _, 0 => some []
  | [], _ + 1 => none
  | c :: t, n + 1 =>
      if c.utf8Size ≤ n + 1 then (textUpto t (n + 1 - c.utf8Size)).map (c :: ·) else none

/-- `&str::get(a..b)`. -/
def textSlice (t : List Char) (a b : Nat) : Option (List Char) :=
  if a ≤ b then (textFrom t a).bind (textUpto · (b - a)) else none

/-! ## Errors -/

/-- The kinds of error the store and the executor report. -/
inductive ErrorKind
  | unsupported | type | illegalFloatComparison | overflow | divisionByZero | panic
  | indexOutOfBounds | invalidShift | invalidCast | integerCoercion | formatLimit | valueDepth
  | output | allocation | storeCapacity | closedStore | invalidHandle | accessConflict
  | fuelExhausted | invalidCode | frameCapacity | cancelled | host | argumentCount
deriving DecidableEq, Repr

/-- The names diagnostics use for types. -/
inductive TypeName
  | unit | bool | i64 | u64 | f64 | char | ordering | string | vec | tuple | object | option
  | result | range | rangeInclusive | vecIter | rangeIter | unsignedRangeIter | charRangeIter
  | function
  | struct (nominal : Nominal)
  | type | rangeFrom | rangeFull | rangeToInclusive | rangeTo | rangeInclusiveIter
  | unsignedRangeInclusiveIter | charRangeInclusiveIter | rangeFromIter | unsignedRangeFromIter
  | charRangeFromIter | optionIter | stringSplit | charSplit | chars | skip | take | objectIter
deriving DecidableEq, Repr

namespace TypeName

/-- The name of a type tag. -/
def fromType : Ty → TypeName
  | .unit => unit
  | .bool => bool
  | .i64 => i64
  | .u64 => u64
  | .f64 => f64
  | .char => char
  | .ordering => ordering
  | .string => string
  | .vec => vec
  | .tuple => tuple
  | .object => object
  | .struct n => struct n
  | .option => option
  | .result => result
  | .range => range
  | .rangeTo => rangeTo
  | .rangeToInclusive => rangeToInclusive
  | .rangeInclusive => rangeInclusive
  | .rangeFull => rangeFull
  | .rangeFrom => rangeFrom
  | .iterator => vecIter
  | .function => function

/-- The name of a value that is not a handle. -/
def primitive : Value → Option TypeName
  | .function _ _ => some function
  | .type _ => some type
  | v => v.primitiveType.map fromType

end TypeName

/-- The access that met a moved payload. -/
inductive MovedAccess
  | read | write | take
deriving DecidableEq, Repr

/-- An integer operand as the script supplied it. -/
inductive IntValue
  | signed (n : I64)
  | unsigned (n : U64)
deriving DecidableEq

/-- The integer type a coercion aimed at. -/
inductive IntTarget
  | i64 | u64 | u32 | usize
deriving DecidableEq, Repr

/-- The operators as diagnostics show them. -/
inductive BinarySymbol
  | add | sub | mul | div | rem | eq | ne | lt | le | gt | ge | bitAnd | bitOr | bitXor | shl | shr
  | addAssign | subAssign | mulAssign | divAssign | remAssign | bitAndAssign | bitOrAssign
  | bitXorAssign | shlAssign | shrAssign
deriving DecidableEq, Repr

/-- The unary operators as diagnostics show them. -/
inductive UnarySymbol
  | neg | not
deriving DecidableEq, Repr

/-- Why a native argument was refused. -/
inductive HostCause
  | expectedType | expectedNumber | integerCoercion
deriving DecidableEq, Repr

/-- The details the store attaches to its errors. -/
inductive Detail
  | none
  | moved (access : MovedAccess)
  | readExclusive | writeExclusive | takeExclusive | writeBorrowed | takeBorrowed
  | movedArgument (arg : Nat) (access : MovedAccess)
  | sharedArgument (arg readers : Nat)
  | takeSharedArgument (arg readers : Nat)
  | exclusiveArgument (access : MovedAccess) (arg : Nat)
  | cmpArgumentAccess (arg : Nat) (access : MovedAccess)
  | underflow
  | valueDepth
  | binary (op : BinarySymbol) (lhs rhs : TypeName)
  | unary (op : UnarySymbol) (operand : TypeName)
  | floatComparison (lhs rhs : BitVec 64)
  | expectedType (expected found : TypeName)
  | missingIntoIter (found : TypeName)
  | expectedChar (found : TypeName)
  | expectedNumber (found : TypeName)
  | missingInteger (target : TypeName) (index : Nat)
  | missingIndex (target : TypeName)
  | missingStringSlice
  | missingKey (target : TypeName)
  | outOfRange (index length : Nat)
  | tupleIndexGet (target : TypeName) (index : Nat)
  | tupleIndexSet (target : TypeName)
  | indexTarget (target index : TypeName)
  | indexSet (target index value : TypeName)
  | noCloneProtocol (found : TypeName)
  | missingInstanceFunction (target : TypeName) (method : String)
  | coerce (value : IntValue) (target : IntTarget)
  | capacityOverflow
  | unsupportedIterRange (start finish : TypeName)
  | unsupportedIterRangeInclusive (start finish : TypeName)
  | unsupportedIterRangeFrom (start : TypeName)
  | numericArgumentType (cause : HostCause) (arg : Nat) (expected found : TypeName)
  | numericArgumentNumber (cause : HostCause) (arg : Nat) (found : TypeName)
  | numericArgumentCoerce (cause : HostCause) (arg : Nat) (value : IntValue) (target : IntTarget)
deriving DecidableEq

/-- An error: its kind, the operation it names, and a detail. -/
structure Error where
  kind : ErrorKind
  operation : String
  detail : Detail
deriving DecidableEq

namespace Error

/-- `Error::new`. -/
def new (kind : ErrorKind) (operation : String) : Error := ⟨kind, operation, .none⟩

/-- Attach a detail. -/
def withDetail (e : Error) (detail : Detail) : Error := { e with detail := detail }

end Error

/-- The error of a store operation. -/
def err (kind : ErrorKind) : Error := .new kind "store"

/-- The error every failed allocation converts to. -/
def allocError : Error := .new .allocation "reserve"

/-- `Option::ok_or`. -/
def okOr {ε α : Type} (o : Option α) (e : ε) : Except ε α :=
  match o with
  | some a => .ok a
  | none => .error e

lemma okOr_eq_ok {ε α : Type} {o : Option α} {e : ε} {a : α} :
    okOr o e = .ok a ↔ o = some a := by
  cases o <;> simp [okOr]

lemma okOr_eq_error {ε α : Type} {o : Option α} {e e' : ε} :
    okOr o e = .error e' ↔ o = none ∧ e = e' := by
  cases o <;> simp [okOr]

/-- Fail with `e` unless `c` holds. -/
def ensure {ε : Type} (c : Prop) [Decidable c] (e : ε) : Except ε Unit :=
  if c then .ok () else .error e

lemma ensure_eq_ok {ε : Type} {c : Prop} [Decidable c] {e : ε} {u : Unit} :
    ensure c e = .ok u ↔ c := by
  unfold ensure
  split_ifs with hc <;> simp [hc]

/-- The integer a value is, if it is one. -/
def IntValue.of : Value → Option IntValue
  | .i64 n => some (.signed n)
  | .u64 n => some (.unsigned n)
  | _ => none

/-- The mathematical value of an operand. -/
def IntValue.wide : IntValue → Int
  | .signed n => n.val
  | .unsigned n => n.val

/-- `usize::try_from` of an operand. -/
def usizeOf (n : Int) : Option Nat := if 0 ≤ n ∧ n ≤ usizeMax then some n.toNat else none

/-- `execute.rs`'s `index_value`: an index operand as a `usize`. -/
def indexValue (v : Value) : Except Error Nat :=
  match IntValue.of v with
  | some n =>
      okOr (usizeOf n.wide)
        ((Error.new .integerCoercion "execute").withDetail (.coerce n .usize))
  | none => .error (.new .type "execute")

end Rnx
