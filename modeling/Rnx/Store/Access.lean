import Rnx.Store.State

/-!
# Checked access, reservation and retention

The accessors every store operation starts from: the readable payload of a handle, the payload
that may be written, the type and the diagnostic name of a value; then the two reservations that
precede any change of ownership, and `retain`.
-/

namespace Rnx

open ErrState (get update fail read attempt ofExcept guardWith)

/-! ## Conflicts -/

/-- The accesses an entry can refuse. -/
inductive Access
  | read | write | take
deriving DecidableEq, Repr

/-- `sorting::conflict`: the error of an access that met a lease, a guard or a moved payload. -/
def conflict (kind : Access) (e : Entry) : Error :=
  (err .accessConflict).withDetail <|
    match kind with
    | .read => if e.readers = exclusiveReaders then .readExclusive else .moved .read
    | .write => if e.readers = exclusiveReaders then .writeExclusive else .writeBorrowed
    | .take => if e.readers = exclusiveReaders then .takeExclusive else .takeBorrowed

namespace Store

/-! ## Reading -/

/-- A payload that can be read: live and not moved out. -/
def payload (s : Store) (h : Handle) : Except Error Payload := do
  let e ← s.entry h
  if e.payload.isMoved then .error (conflict .read e) else .ok e.payload

/-- A payload that can be written: live, without readers and not moved out. -/
def mutable (s : Store) (h : Handle) : Except Error Payload := do
  let e ← s.entry h
  if e.readers ≠ 0 then
    .error (conflict .write e)
  else if e.payload.isMoved then
    .error ((err .accessConflict).withDetail (.moved .write))
  else
    .ok e.payload

/-- The type of a value. -/
def tag (s : Store) : Value → Except Error Ty
  | .heap h => (s.entry h).map (·.payload.tag)
  | v => okOr v.primitiveType (err .type)

/-- The text of a string value. -/
def text (s : Store) : Value → Except Error (List Char)
  | .heap h => do
      match ← s.payload h with
      | .string t => .ok t.chars
      | _ => .error (err .type)
  | _ => .error (err .type)

/-- The name of a cursor's type. -/
def cursorName (c : RangeCursor) : TypeName :=
  match c.finish.isSome, c.next with
  | true, .i64 _ => .rangeInclusiveIter
  | true, .u64 _ => .unsignedRangeInclusiveIter
  | true, _ => .charRangeInclusiveIter
  | false, .i64 _ => .rangeFromIter
  | false, .u64 _ => .unsignedRangeFromIter
  | false, _ => .charRangeFromIter

/-- The name of a boxed iterator's type. -/
def boxedName (st : BoxedState) : TypeName :=
  match st.kind with
  | .range c => cursorName c
  | .split ⟨.string _, _, _⟩ => .stringSplit
  | .split ⟨.char _, _, _⟩ => .charSplit
  | .chars _ => .chars
  | .skip _ => .skip
  | .take _ => .take

/-- The recorded name of an iterator that was moved out. -/
def movedIteratorName (s : Store) (h : Handle) : Option TypeName :=
  (s.opaqueNames.reverse.find? (fun p => p.1 = h)).map Prod.snd

/-- The diagnostic name of a value's type; never consulted by a successful access. -/
def diagnosticType (s : Store) : Value → Option TypeName
  | .heap h =>
      match s.entry h with
      | .error _ => none
      | .ok e =>
          match e.payload with
          | .otherRangeIterator st => some (boxedName st)
          | .rangeIterator _ _ => some .rangeIter
          | .valueRangeIterator (.u64 _) _ => some .unsignedRangeIter
          | .valueRangeIterator (.char _) _ => some .charRangeIter
          | .valueRangeIterator _ _ => some .rangeIter
          | .moved .iterator => s.movedIteratorName h
          | .moved t => some (.fromType t)
          | .vectorIterator iter =>
              match s.payload iter.handle with
              | .ok p => some (if p.tag = .object then .objectIter else .vecIter)
              | .error _ => none
          | .optionIterator _ => some .optionIter
          | p => some (.fromType p.tag)
  | v => TypeName.primitive v

/-- The name, as an error when there is none. -/
def typeName (s : Store) (v : Value) : Except Error TypeName :=
  okOr (s.diagnosticType v) (err .invalidCode)

/-- The length of a sized container. -/
def len (s : Store) : Value → Except Error Nat
  | .unit => .ok 0
  | .heap h => do
      match ← s.payload h with
      | .string t => .ok t.len
      | .record .object fields => .ok fields.items.length
      | .list .vec values | .list .tuple values => .ok values.items.length
      | _ => .error (err .type)
  | _ => .error (err .type)

/-- The byte budget that is left. -/
def roomLeft (s : Store) : Nat := s.limits.bytes - s.bytes

/-- `Store::replacement_bytes`: the byte counter once `h` is charged `charged` instead. -/
def replacementBytes (s : Store) (h : Handle) (charged : Nat) : Except Error Nat := do
  let e ← s.entry h
  let bytes ← okOr ((checkedSub s.bytes e.chargedBytes).bind (checkedAdd · charged)) (err .overflow)
  if bytes > s.limits.bytes then .error (err .storeCapacity) else .ok bytes

/-! ## Allocation -/

/-- One allocation of `bytes` bytes, granted or refused by the allocator; nothing is asked for
no bytes, and nothing larger than `isize::MAX` is ever granted. -/
def alloc (bytes : Nat) : M Unit := fun s =>
  if bytes = 0 then (.ok (), s)
  else if bytes > isizeMax then (.error allocError, s)
  else (if s.allocator 0 then .ok () else .error allocError,
    { s with allocator := fun n => s.allocator (n + 1) })

/-- The capacity an amortised reservation grows to, if it has to. -/
def grow (capacity len additional : Nat) : Option Nat :=
  if additional ≤ capacity - len then none
  else some (max 4 (max (capacity * 2) (len + additional)))

/-- Reserve room for the peak of an ownership change, before anything is retained or published:
the release list must be able to take every pending release, every live edge and one root. -/
def reserveWork (newEdges queued : Nat) : M Unit := do
  let s ← get
  let needed ← ofExcept (okOr ((((checkedAdd s.edges newEdges).bind
    (checkedAdd · s.work.length)).bind (checkedAdd · queued)).bind (checkedAdd · 1))
    (err .overflow))
  match grow s.workCap s.work.length (needed - s.work.length) with
  | none => pure ()
  | some cap => do
      alloc (cap * sizeValue)
      update (fun s => { s with workCap := cap })

/-- `Store::replacement_edges`: the edge counter once `new` stands where `old` stood. -/
def replacementEdges (old new : Value) : M Nat := do
  let s ← get
  let next ← ofExcept (okOr ((checkedSub s.edges old.heapEdge).bind (checkedAdd · new.heapEdge))
    (err .invalidCode))
  reserveWork new.heapEdge old.heapEdge
  pure next

/-! ## Retention -/

/-- Acquire one more reference to a value. -/
def retain : Value → M Unit
  | .heap h => do
      let e ← read (·.entry h)
      if e.strong + 1 ≤ u32Max then
        update (·.modify h.slot fun e => { e with strong := e.strong + 1 })
      else
        fail (err .overflow)
  | _ => pure ()

/-- Rewrite the payload of an entry. -/
def setPayload (h : Handle) (p : Payload) : M Unit :=
  update (·.modify h.slot fun e => { e with payload := p })

/-- Rewrite the payload of an entry and the edge counter. -/
def setChild (h : Handle) (p : Payload) (edges : Nat) : M Unit :=
  update fun s => { s.modify h.slot fun e => { e with payload := p } with edges := edges }

/-- Rewrite the payload and the charge of an entry, and the counters that go with them. -/
def setCharged (h : Handle) (p : Payload) (charged bytes edges : Nat) : M Unit :=
  update fun s => { s.modify h.slot fun e => { e with payload := p, chargedBytes := charged } with
    edges := edges, bytes := bytes }

/-- Store the edge counter. -/
def setEdges (n : Nat) : M Unit := update (fun s => { s with edges := n })

end Store

end Rnx
