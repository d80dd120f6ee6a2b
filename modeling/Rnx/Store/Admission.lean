import Rnx.Store.Access

/-!
# Admission

`Store::admit` publishes a new payload: every check, every reservation and every retained child
comes before the first change that cannot be undone.  The constructors below it prepare a payload
off-store and admit it.
-/

namespace Rnx

open ErrState (get update fail read attempt ofExcept guardWith)

namespace Store

/-! ## Admission -/

/-- Undo references acquired for a payload that was not published. -/
def undoAdmissionEdges : List Value → M Unit
  | [] => pure ()
  | .heap h :: vs => do
      update (·.modify h.slot fun e => { e with strong := e.strong - 1 })
      undoAdmissionEdges vs
  | _ :: vs => undoAdmissionEdges vs

/-- Retain every child, or undo those already retained. -/
def retainChildren (done : List Value) : List Value → M Unit
  | [] => pure ()
  | v :: vs => do
      match ← attempt (retain v) with
      | .ok () => retainChildren (done ++ [v]) vs
      | .error e => do
          undoAdmissionEdges done
          fail e

/-- What the checks before any reservation establish. -/
structure Admitted where
  charged : Nat
  bytes : Nat
  readers : Option Nat
  edges : Nat

/-- The reader count an iterator's source gets. -/
def leaseReaders (s : Store) (h : Handle) : Except Error Nat := do
  let e ← s.entry h
  ensure (e.readers + 1 ≤ u32Max ∧ e.readers + 1 ≠ exclusiveReaders) (err .overflow)
  pure (e.readers + 1)

/-- The tail of the allocation order is an entry without a successor. -/
def tailAgrees (s : Store) : Bool :=
  match s.last with
  | some last => (s.cell last).any (fun q => q.2.next = none)
  | none => true

/-- The reader count an admission will store: only a vector iterator leases its source here. -/
def admitReaders (s : Store) : Payload → Except Error (Option Nat)
  | .vectorIterator iter => do
      let source ← s.payload iter.handle
      ensure (source.tag = .vec ∨ source.tag = .tuple ∨ source.tag = .object) (err .type)
      let readers ← s.leaseReaders iter.handle
      pure (some readers)
  | _ => pure none

/-- The checks of `Store::admit`, in order. -/
def admitCheck (s : Store) (p : Payload) : Except Error Admitted := do
  ensure (p.isMoved = false) (err .invalidCode)
  ensure (s.closed = false) (err .closedStore)
  let charged ← p.bytes
  let bytes ← okOr (checkedAdd s.bytes charged) (err .overflow)
  ensure (¬ (bytes > s.limits.bytes ∨ s.live = s.limits.entries ∨
    (s.free = [] ∧ s.slots.length = s.limits.entries))) (err .storeCapacity)
  ensure (s.tailAgrees = true) (err .invalidHandle)
  let readers ← s.admitReaders p
  let edges ← okOr (checkedAdd s.edges p.edges) (err .overflow)
  pure ⟨charged, bytes, readers, edges⟩

/-- Reserve a place on the free list for one more slot. -/
def reserveFree : M Unit := do
  let s ← get
  match grow s.freeCap s.free.length (s.slots.length + 1 - s.free.length) with
  | none => pure ()
  | some cap => do
      alloc (cap * 4)
      update (fun s => { s with freeCap := cap })

/-- Reserve one more slot. -/
def reserveTable : M Unit := do
  let s ← get
  match grow s.slotCap s.slots.length 1 with
  | none => pure ()
  | some cap => do
      alloc (cap * 80)
      update (fun s => { s with slotCap := cap })

/-- Reserve a slot and its place on the free list, when no vacated slot can be reused. -/
def reserveSlot : M Unit := do
  let s ← get
  if s.free = [] then
    reserveFree
    reserveTable

/-- What follows a slot in the allocation order, or the head of the order, becomes `i`. -/
def relinkNext (s : Store) (after i : Option Nat) : Store :=
  match after with
  | some j => s.modify j (fun e => { e with next := i })
  | none => { s with first := i }

/-- What precedes a slot in the allocation order, or the tail of the order, becomes `i`. -/
def relinkPrevious (s : Store) (before i : Option Nat) : Store :=
  match before with
  | some j => s.modify j (fun e => { e with previous := i })
  | none => { s with last := i }

/-- Put an entry into slot `i`. -/
def place (s : Store) (i : Nat) (e : Entry) : Store :=
  { s with slots := s.slots.modify i (fun sl => { sl with entry := some e }) }

/-- Take the shared lease of a vector iterator, with the reader count checked before. -/
def withLease (s : Store) (p : Payload) (readers : Option Nat) : Store :=
  match p, readers with
  | .vectorIterator iter, some n => s.modify iter.handle.slot (fun e => { e with readers := n })
  | _, _ => s

/-- The publication that ends a successful admission: the new entry, owned once, joins the
allocation order at its tail. -/
def publish (s : Store) (i : Nat) (p : Payload) (a : Admitted) : Store :=
  let s := s.withLease p a.readers
  let s := s.place i ⟨s.last, none, 1, 0, a.charged, false, p⟩
  let s := s.relinkNext s.last (some i)
  { s with last := some i, live := s.live + 1, bytes := a.bytes, edges := a.edges }

/-- Publish a payload as a new entry. -/
def admitPayload (p : Payload) : M Value := do
  let a ← read (·.admitCheck p)
  reserveWork p.edges 0
  reserveSlot
  let s ← get
  match s.free with
  | i :: rest => do
      match s.slots[i]? with
      | some ⟨g, none⟩ => do
          retainChildren [] p.children
          update (fun s => { s.publish i p a with free := rest })
          pure (.heap ⟨i, g⟩)
      | _ => fail (err .invalidHandle)
  | [] => do
      let i := s.slots.length
      if i > u32Max then fail (err .storeCapacity)
      update (fun s => { s with slots := s.slots ++ [⟨1, none⟩] })
      match ← attempt (retainChildren [] p.children) with
      | .error e => do
          update (fun s => { s with slots := s.slots.dropLast })
          fail e
      | .ok () => do
          update (·.publish i p a)
          pure (.heap ⟨i, 1⟩)

/-! ## Constructors -/

/-- Fail in a closed store. -/
def ensureOpen : M Unit := do
  let s ← get
  guardWith (s.closed = false) (err .closedStore)

/-- Fail when `bytes` exceed the budget that is left. -/
def ensureRoom (bytes : Nat) : M Unit := do
  let s ← get
  guardWith (bytes ≤ s.roomLeft) (err .storeCapacity)

/-- A new string. -/
def string (t : List Char) : M Value := do
  ensureOpen
  ensureRoom (utf8Len t)
  alloc (utf8Len t)
  admitPayload (.string (.copy t))

/-- Admit a buffer built elsewhere. -/
def stringOwned (t : Text) : M Value := admitPayload (.string t)

/-- `String::from`: a copy of another string. -/
def stringFrom (v : Value) : M Value := do
  ensureOpen
  let t ← read (·.text v)
  ensureRoom (utf8Len t)
  alloc (utf8Len t)
  stringOwned (.copy t)

/-- The arity a declared type demands of its list of fields. -/
def structArity (N : Nominals) : Ty → Option (Option Nat)
  | .vec | .tuple => some none
  | .struct n =>
      match N.shape n with
      | some .empty => some (some 0)
      | some (.tuple k) => some (some k)
      | _ => none
  | _ => none

/-- A new vector, tuple or tuple struct over copied values. -/
def list (tag : Ty) (values : List Value) : M Value := do
  ensureOpen
  let s ← get
  match structArity s.nominals tag with
  | none => fail (err .type)
  | some arity => do
      guardWith (∀ n ∈ arity, values.length = n) (err .type)
      let bytes ← ofExcept (okOr (checkedMul values.length sizeValue) (err .overflow))
      ensureRoom bytes
      alloc bytes
      admitPayload (.list tag (.copy values))

/-- A closure over the values of a compiler-built tuple. -/
def closure (code function : Nat) (env : Value) : M Value := do
  ensureOpen
  match env with
  | .heap h => do
      match ← read (·.payload h) with
      | .list .tuple values => do
          let bytes ← ofExcept (okOr (checkedMul values.items.length sizeValue) (err .overflow))
          ensureRoom bytes
          alloc bytes
          admitPayload (.closure code function (.copy values.items))
      | _ => fail (err .invalidCode)
  | _ => fail (err .invalidCode)

/-- The bytes a record of these fields needs; a repeated key is refused. -/
def recordBytes (fields : List (List Char × Value)) : Except Error Nat :=
  if (fields.map Prod.fst).Nodup then
    okOr (fields.foldl (fun acc f => acc.bind (checkedAdd · (utf8Len f.1)))
      (checkedMul fields.length sizeField)) (err .overflow)
  else
    .error (err .invalidCode)

/-- Allocate the copy of every key. -/
def allocKeys : List (List Char × Value) → M Unit
  | [] => pure ()
  | f :: fs => do
      alloc (utf8Len f.1)
      allocKeys fs

/-- Whether another entry fits the entry limit. -/
def entryRoom (s : Store) : Bool :=
  !(s.live = s.limits.entries ∨ (s.free = [] ∧ s.slots.length = s.limits.entries))

/-- A new object or named struct over its declared fields. -/
def record (tag : Ty) (fields : List (List Char × Value)) : M Value := do
  ensureOpen
  match tag with
  | .object | .struct _ => do
      let bytes ← ofExcept (recordBytes fields)
      let s ← get
      guardWith (bytes ≤ s.roomLeft ∧ s.entryRoom) (err .storeCapacity)
      alloc (fields.length * sizeField)
      allocKeys fields
      admitPayload (.record tag (.copy (fields.map fun f => (.copy f.1, f.2))))
  | _ => fail (err .type)

/-- A new `Option` or `Result`. -/
def variant (tag : Ty) (success : Bool) (payload : Option Value) : M Value := do
  guardWith ((tag = .option ∧ success = payload.isSome) ∨ (tag = .result ∧ payload.isSome))
    (err .type)
  admitPayload (.variant tag success payload)

/-- A new integer range. -/
def range (start finish : I64) : M Value := admitPayload (.range start finish)

/-- A range over any two values; two signed integers are kept unboxed. -/
def canonicalRange : Value → Value → Payload
  | .i64 a, .i64 b => .range a b
  | a, b => .valueRange a b

/-- A new range. -/
def rangeValues (start finish : Value) : M Value := admitPayload (canonicalRange start finish)

/-- The shape of a range other than `start..end`. -/
def otherShape : Ty → List Value → Option RangeShape
  | .rangeFrom, [a] => some ⟨.rangeFrom, some a, none⟩
  | .rangeFull, [] => some ⟨.rangeFull, none, none⟩
  | .rangeInclusive, [a, b] => some ⟨.rangeInclusive, some a, some b⟩
  | .rangeToInclusive, [b] => some ⟨.rangeToInclusive, none, some b⟩
  | .rangeTo, [b] => some ⟨.rangeTo, none, some b⟩
  | _, _ => none

/-- Allocate a box, reporting failure with the given error. -/
def boxed (bytes : Nat) (e : Error) : M Unit := do
  match ← attempt (alloc bytes) with
  | .ok () => pure ()
  | .error _ => fail e

/-- A new range of another shape. -/
def otherRange (tag : Ty) (args : List Value) : M Value :=
  match otherShape tag args with
  | some shape => do
      boxed sizeRangeShape (err .allocation)
      admitPayload (.otherRange shape)
  | none => fail (err .invalidCode)

/-- A new vector with a bounded reservation. -/
def vecWithCapacity (capacity : Nat) : M Value := do
  guardWith (capacity ≤ isizeMax / sizeValue) ((err .allocation).withDetail .capacityOverflow)
  ensureOpen
  let s ← get
  guardWith (s.bytes ≤ s.limits.bytes ∧ s.entryRoom) (err .storeCapacity)
  let reserve := min (min capacity (s.roomLeft / sizeValue)) 8
  alloc (reserve * sizeValue)
  admitPayload (.list .vec (.filled reserve []))

/-- The concatenation of two strings. -/
def concatString (a b : Value) : M Value := do
  let left ← read (·.text a)
  let right ← read (·.text b)
  let len ← ofExcept (okOr (checkedAdd (utf8Len left) (utf8Len right)) (err .overflow))
  ensureRoom len
  alloc len
  admitPayload (.string (.copy (left ++ right)))

end Store

end Rnx
