import Rnx.Store.Taking

/-!
# Iterators

Iterators are entries of the store.  One over a vector, a tuple or an object leases its source;
one over a range or an `Option` owns a snapshot; the text iterators share one boxed payload, whose
charge and lease are settled right after its admission.
-/

namespace Rnx

open ErrState (get update fail read attempt ofExcept guardWith)

namespace Store

/-! ## Ranges as iterators -/

/-- The next character, skipping the surrogates. -/
def nextChar (c : Char) : Option Char :=
  let n := if c.toNat + 1 = 0xd800 then 0xe000 else c.toNat + 1
  if h : n.isValidChar then some (Char.ofNatAux n h) else none

/-- The endpoints of a range as iteration reads them: the end takes the type of the start. -/
def rangeIterationBounds (s : Store) (start finish : Value) : Except Error (Value × Value) :=
  match start, finish with
  | .i64 _, .i64 _ | .u64 _, .u64 _ | .char _, .char _ => .ok (start, finish)
  | .i64 _, .u64 n =>
      match I64.ofInt? n.val with
      | some m => .ok (start, .i64 m)
      | none => .error ((err .integerCoercion).withDetail (.coerce (.unsigned n) .i64))
  | .u64 _, .i64 n =>
      match if 0 ≤ n.val then U64.ofNat? n.val.toNat else none with
      | some m => .ok (start, .u64 m)
      | none => .error ((err .integerCoercion).withDetail (.coerce (.signed n) .u64))
  | .i64 _, .unit | .i64 _, .bool _ | .i64 _, .char _ | .i64 _, .f64 _ | .i64 _, .type _
  | .u64 _, .unit | .u64 _, .bool _ | .u64 _, .char _ | .u64 _, .f64 _ | .u64 _, .type _ => do
      let found ← s.typeName finish
      .error ((err .type).withDetail (.expectedNumber found))
  | _, _ => do
      let first ← s.typeName start
      let last ← s.typeName finish
      .error ((err .type).withDetail (.unsupportedIterRange first last))

/-- An inclusive range reports its own name. -/
def inclusiveError (e : Error) : Error :=
  match e.detail with
  | .unsupportedIterRange first last => e.withDetail (.unsupportedIterRangeInclusive first last)
  | _ => e

/-- The cursor over a range of another shape. -/
def rangeCursor (s : Store) (shape : RangeShape) : Except Error RangeCursor := do
  let next ← okOr shape.start (err .type)
  match shape.tag with
  | .rangeInclusive => do
      let finish ← okOr shape.finish (err .invalidCode)
      let (_, finish) ← (s.rangeIterationBounds next finish).mapError inclusiveError
      pure ⟨next, some finish, false⟩
  | .rangeFrom =>
      match next with
      | .i64 _ | .u64 _ | .char _ => pure ⟨next, none, false⟩
      | _ => do
          let found ← s.typeName next
          .error ((err .type).withDetail (.unsupportedIterRangeFrom found))
  | _ => .error (err .type)

/-- An iterator over a range of another shape. -/
def otherRangeIterator (shape : RangeShape) : M Value := do
  let cursor ← read (·.rangeCursor shape)
  boxed sizeBoxedState (err .allocation)
  admitPayload (.otherRangeIterator ⟨none, .range cursor⟩)

/-- Whether a payload iterates itself. -/
def isIterator : Payload → Bool
  | .vectorIterator _ | .optionIterator _ | .rangeIterator _ _ | .valueRangeIterator _ _
  | .otherRangeIterator _ | .moved .iterator => true
  | _ => false

/-- An iterator over a value; an iterator is its own. -/
def iterator (v : Value) : M Value :=
  match v with
  | .unit => admitPayload (.optionIterator none)
  | .heap h => do
      let e ← read (·.entry h)
      if isIterator e.payload then do
        retain v
        pure v
      else
        match ← read (·.payload h) with
        | .variant .option _ payload => admitPayload (.optionIterator payload)
        | .valueRange start finish => do
            let (next, finish) ← read (·.rangeIterationBounds start finish)
            admitPayload (.valueRangeIterator next finish)
        | .range start finish => admitPayload (.rangeIterator start finish)
        | .otherRange shape => otherRangeIterator shape
        | _ => admitPayload (.vectorIterator ⟨h, 0⟩)
  | _ => fail (err .type)

/-! ## Text iterators -/

/-- `split`'s own charge: its box and the copied pattern. -/
def Split.bytes (st : Split) : Except Error Nat :=
  okOr (checkedAdd 40 (match st.pattern with
    | .string t => t.capacity
    | .char _ => 0)) (err .overflow)

/-- The rest of a boxed iterator's charge, and the lease on its source. -/
def settleBoxed (iter source : Handle) (extra charge : Nat) (readers : Option Nat) : M Unit := do
  let s ← get
  let bytes ← ofExcept (okOr ((checkedAdd s.bytes extra).filter (· ≤ s.limits.bytes))
    (err .invalidCode))
  let _ ← read (·.entry iter)
  let _ ← read (·.entry source)
  update fun s => { s.modifyTwo iter source
    (fun e => { e with chargedBytes := charge })
    (fun e => { e with readers := readers.getD e.readers }) with bytes := bytes }

/-- Admit a boxed iterator over another entry. -/
def pipelineAdmit (source : Value) (kind : BoxedKind) (extra : Nat) (lease : Bool) : M Value :=
  match source with
  | .heap h => do
      let readers ← read fun s => if lease then (s.leaseReaders h).map some else .ok none
      let charge ← ofExcept (okOr (checkedAdd sizeBoxedState extra) (err .overflow))
      ensureRoom charge
      alloc sizeBoxedState
      match ← admitPayload (.otherRangeIterator ⟨some h, kind⟩) with
      | .heap iter => do
          settleBoxed iter h extra charge readers
          pure (.heap iter)
      | _ => fail (err .invalidCode)
  | _ => fail (err .invalidCode)

/-- The characters of a string. -/
def pipelineChars (source : Value) : M Value := do
  let tag ← read (·.tag source)
  if tag = .string then do
    let _ ← read (·.text source)
    alloc 8
    pipelineAdmit source (.chars 0) 8 true
  else do
    let e ← read (·.missingMethod source "chars")
    fail e

/-- The count of a `skip` or a `take`, as a native argument. -/
def adapterCount (s : Store) (n : Value) : Except Error Nat :=
  match IntValue.of n with
  | some int =>
      okOr (usizeOf int.wide) ((err .integerCoercion).withDetail
        (.numericArgumentCoerce .integerCoercion 1 int .usize))
  | none => do
      let found ← s.typeName n
      .error ((err .type).withDetail (.numericArgumentNumber .expectedNumber 1 found))

/-- Whether a boxed iterator walks over another entry. -/
def isSplit : Payload → Bool
  | .otherRangeIterator ⟨_, .range _⟩ => false
  | .otherRangeIterator _ => true
  | _ => false

/-- `skip` and `take` over a boxed iterator. -/
def pipelineAdapter (source n : Value) (take : Bool) : M Value := do
  let n ← read (·.adapterCount n)
  match source with
  | .heap h => do
      let p ← read (·.payload h)
      guardWith (isSplit p = true) (err .invalidCode)
      alloc 8
      pipelineAdmit source (if take then .take n else .skip n) 8 false
  | _ => fail (err .invalidCode)

/-- The iterator under an adapter, retained. -/
def pipelineChild (v : Value) : M Value :=
  match v with
  | .heap h => do
      match ← read (·.payload h) with
      | .otherRangeIterator ⟨source, .skip _⟩ | .otherRangeIterator ⟨source, .take _⟩ => do
          let h ← ofExcept (okOr source (err .invalidCode))
          retain (.heap h)
          pure (.heap h)
      | _ => fail (err .invalidCode)
  | _ => fail (err .invalidCode)

/-- Split a string at a pattern. -/
def textSplit (source delimiter : Value) : M Value :=
  match source with
  | .heap h => do
      let readers ← read (·.leaseReaders h)
      let needle ← match delimiter with
        | .char c => pure (.inl c)
        | _ => do
            let t ← read (·.text delimiter)
            pure (.inr t)
      let copied := Sum.elim (fun _ => 0) utf8Len needle
      ensureRoom (sizeBoxedState + 40 + copied)
      alloc copied
      let pattern := needle.elim .char fun t => .string (.copy t)
      alloc 40
      let extra ← ofExcept (Split.bytes ⟨pattern, 0, 0⟩)
      let charge ← ofExcept (okOr (checkedAdd sizeBoxedState extra) (err .overflow))
      ensureRoom charge
      alloc sizeBoxedState
      match ← admitPayload (.otherRangeIterator ⟨some h, .split ⟨pattern, 0, 0⟩⟩) with
      | .heap iter => do
          settleBoxed iter h extra charge (some readers)
          pure (.heap iter)
      | _ => fail (err .invalidCode)
  | _ => fail (err .invalidCode)

/-- Check a text argument. -/
def textArgument (s : Store) (v : Value) (arg : Nat) : Except Error Unit :=
  ((s.text v).map fun _ => ()).mapError fun e =>
    match e.detail with
    | .moved .read => e.withDetail (.cmpArgumentAccess arg .read)
    | _ => e

/-- Check the pattern of a split: a character, or a string. -/
def splitArgument (s : Store) (delimiter : Value) : Except Error Unit :=
  match delimiter with
  | .char _ => .ok ()
  | _ => do
      let string ←
        match s.tag delimiter with
        | .ok tag => .ok (decide (tag = .string))
        | .error e => if e.kind = .type then .ok false else .error e
      if string then s.textArgument delimiter 1
      else do
        let found ← s.typeName delimiter
        .error ((err .type).withDetail (.numericArgumentType .expectedType 1 .string found))

/-- The `split` of `text_method`, which is the only caller of `text_split`. -/
def textMethodSplit (receiver delimiter : Value) : M Value := do
  let tag ← read (·.tag receiver)
  if tag = .string then do
    read (·.textArgument receiver 0)
    read (·.splitArgument delimiter)
    textSplit receiver delimiter
  else do
    let e ← read (·.missingMethod receiver "split")
    fail e

/-! ## Advancing -/

/-- The piece a split yields and where it goes on. -/
structure SplitStep where
  first : Nat
  last : Nat
  finish : Bool
  start : Nat
  upto : Nat

/-- How a pattern meets the rest of the text: whether it matches, and how far to move. -/
def matchPattern (pattern : Pattern) (tail : List Char) : Except Error (Bool × Nat) :=
  match pattern with
  | .string t =>
      if t.chars.isPrefixOf tail then .ok (true, t.len)
      else .ok (false, (tail.head?.map (·.utf8Size)).getD 0)
  | .char c =>
      match tail with
      | x :: _ => .ok (x = c, x.utf8Size)
      | [] => .error (err .invalidCode)

/-- The search of a split.  Every round that does not match moves on by a character, so the fuel,
one more than the length of the text, bounds the source's `while` loop. -/
def splitSearch (text : List Char) (pattern : Pattern) (start : Nat) : Nat → Nat →
    Except Error SplitStep
  | 0, _ => .error (err .invalidCode)
  | fuel + 1, upto =>
      if upto < utf8Len text then do
        let tail ← okOr (textFrom text upto) (err .invalidCode)
        let (yes, len) ← matchPattern pattern tail
        if yes then
          if len = 0 then
            pure ⟨start, upto, false, upto, upto + (tail.head?.map (·.utf8Size)).getD 0⟩
          else
            pure ⟨start, upto, false, upto + len, upto + len⟩
        else
          splitSearch text pattern start fuel (upto + len)
      else
        pure ⟨start, upto, match pattern with
          | .string t => !t.chars.isEmpty
          | .char _ => true, upto, upto⟩

/-- The next step of a split. -/
def splitStep (text : List Char) (st : Split) : Except Error SplitStep :=
  if st.start = utf8Len text ∧ st.start = st.upto then
    .ok ⟨st.start, st.upto, true, st.start, st.upto⟩
  else
    splitSearch text st.pattern st.start (utf8Len text + 1) st.upto

/-- An exhausted split lets go of its source: the edge, the lease, and then the reference. -/
def endSplit (source : Handle) : M Unit := do
  let s ← get
  let edges ← ofExcept (okOr (checkedSub s.edges 1) (err .invalidCode))
  setEdges edges
  let e ← read (·.entry source)
  guardWith (1 ≤ e.readers) (err .invalidCode)
  update (·.modify source.slot fun e => { e with readers := e.readers - 1 })
  release (.heap source)

/-- The next piece of a split. -/
def splitNext (h : Handle) : M (Option Value) := do
  match ← read (·.payload h) with
  | .otherRangeIterator ⟨some source, .split st⟩ => do
      let text ← read (·.text (.heap source))
      let step ← ofExcept (splitStep text st)
      let piece ← ofExcept (okOr (textSlice text step.first step.last) (err .invalidCode))
      ensureRoom (utf8Len piece)
      alloc (utf8Len piece)
      let result ← stringOwned (.copy piece)
      match ← read (·.mutable h) with
      | .otherRangeIterator ⟨source, .split st⟩ => do
          setPayload h (.otherRangeIterator
            ⟨if step.finish then none else source, .split ⟨st.pattern, step.start, step.upto⟩⟩)
          match source with
          | some source => if step.finish then endSplit source
          | none => pure ()
          pure (some result)
      | _ => fail (err .invalidCode)
  | .otherRangeIterator ⟨none, .split _⟩ => pure none
  | _ => fail (err .invalidCode)

/-- The next character of a string. -/
def charsNext (h : Handle) : M (Option Value) := do
  match ← read (·.payload h) with
  | .otherRangeIterator ⟨source, .chars offset⟩ => do
      let source ← ofExcept (okOr source (err .invalidCode))
      let text ← read (·.text (.heap source))
      let tail ← ofExcept (okOr (textFrom text offset) (err .invalidCode))
      match tail with
      | [] => pure none
      | c :: _ => do
          match ← read (·.mutable h) with
          | .otherRangeIterator ⟨source, .chars offset⟩ => do
              let offset ← ofExcept (okOr (checkedAdd offset c.utf8Size) (err .invalidCode))
              setPayload h (.otherRangeIterator ⟨source, .chars offset⟩)
              pure (some (.char c))
          | _ => fail (err .invalidCode)
  | _ => fail (err .invalidCode)

/-- Where a cursor stands: past its end, at its last value, or before it. -/
def cursorState (c : RangeCursor) : Except Error (Bool × Bool) :=
  match c.next, c.finish with
  | .i64 a, some (.i64 b) => .ok (a.val > b.val, a.val = b.val)
  | .u64 a, some (.u64 b) => .ok (a.val > b.val, a.val = b.val)
  | .char a, some (.char b) => .ok (a.toNat > b.toNat, a = b)
  | _, none => .ok (false, false)
  | _, _ => .error (err .invalidCode)

/-- The value after a cursor's. -/
def cursorAdvance : Value → Except Error Value
  | .i64 n => (okOr n.succ? (err .overflow)).map .i64
  | .u64 n => (okOr n.succ? (err .overflow)).map .u64
  | .char c => (okOr (nextChar c) (err .overflow)).map .char
  | _ => .error (err .invalidCode)

/-- The next value of a cursor, and the cursor that goes on. -/
def cursorNext (c : RangeCursor) : Except Error (Option Value × RangeCursor) :=
  if c.done then .ok (none, c)
  else do
    let (past, last) ← cursorState c
    if past then pure (none, { c with done := true })
    else if last then pure (some c.next, { c with done := true })
    else do
      let next ← cursorAdvance c.next
      pure (some c.next, { c with next := next })

/-- The next value of a boxed iterator. -/
def otherRangeNext (h : Handle) : M (Option Value) := do
  match ← read (·.payload h) with
  | .otherRangeIterator ⟨_, .chars _⟩ => charsNext h
  | .otherRangeIterator ⟨_, .split _⟩ => splitNext h
  | _ => do
      match ← read (·.mutable h) with
      | .otherRangeIterator ⟨source, .range cursor⟩ => do
          let (value, cursor) ← ofExcept (cursorNext cursor)
          setPayload h (.otherRangeIterator ⟨source, .range cursor⟩)
          pure value
      | _ => fail (err .invalidCode)

/-- The next value of a range of scalars of one kind. -/
def valueRangeAdvance (next finish : Value) : Except Error (Option Value) :=
  match next, finish with
  | .i64 a, .i64 b =>
      if a.val < b.val then (okOr a.succ? (err .overflow)).map fun n => some (.i64 n) else .ok none
  | .u64 a, .u64 b =>
      if a.val < b.val then (okOr a.succ? (err .overflow)).map fun n => some (.u64 n) else .ok none
  | .char a, .char b =>
      if a.toNat < b.toNat then (okOr (nextChar a) (err .invalidCode)).map fun c => some (.char c)
      else .ok none
  | _, _ => .error (err .invalidCode)

/-- The next value of a snapshot of a range. -/
def valueRangeNext (h : Handle) (next finish : Value) : M (Option Value) := do
  match ← ofExcept (valueRangeAdvance next finish) with
  | none => pure none
  | some advanced => do
      match ← read (·.mutable h) with
      | .valueRangeIterator _ finish => do
          setPayload h (.valueRangeIterator advanced finish)
          pure (some next)
      | _ => fail (err .invalidCode)

/-- A key and its value as a tuple; the key's own reference does not outlive the call. -/
def objectPair (key : List Char) (child : Value) : M Value := do
  ensureRoom (utf8Len key)
  alloc (utf8Len key)
  let key ← admitPayload (.string (.copy key))
  let pair ← attempt (list .tuple [key, child])
  let released ← attempt (release key)
  match pair, released with
  | .ok pair, .ok () => pure pair
  | .ok pair, .error e => do
      let _ ← attempt (release pair)
      fail e
  | .error _, .error e => fail e
  | .error e, .ok () => fail e

/-- The element of a leased container, as the iterator yields it. -/
def iterElement (source : Handle) (index : Nat) : M Value := do
  match ← read (·.payload source) with
  | .record .object fields =>
      match fields.items[index]? with
      | some (key, child) => objectPair key.chars child
      | none => fail (err .invalidCode)
  | _ => getElement (.heap source) index

/-- The number of elements of a leased container. -/
def iterLength : Payload → Except Error Nat
  | .record .object fields => .ok fields.items.length
  | .list _ values => .ok values.items.length
  | _ => .error (err .invalidCode)

/-- Take the value out of an `Option` iterator; its reference passes to the caller. -/
def optionNext (h : Handle) : M (Option Value) := do
  match ← read (·.mutable h) with
  | .optionIterator payload => do
      setPayload h (.optionIterator none)
      let s ← get
      let edges ← ofExcept (okOr (checkedSub s.edges (edgesIn payload.toList)) (err .invalidCode))
      setEdges edges
      pure payload
  | _ => fail (err .invalidCode)

/-- Advance an iterator.  A failed advance consumes nothing. -/
def iteratorNext (v : Value) : M (Option Value) :=
  match v with
  | .heap h => do
      match ← read (·.mutable h) with
      | .rangeIterator next finish =>
          if next.val ≥ finish.val then pure none
          else do
            let new ← ofExcept (okOr next.succ? (err .overflow))
            setPayload h (.rangeIterator new finish)
            pure (some (.i64 next))
      | .vectorIterator iter => do
          let source ← read (·.payload iter.handle)
          let length ← ofExcept (iterLength source)
          if iter.index = length then pure none
          else do
            let value ← iterElement iter.handle iter.index
            match ← read (·.mutable h) with
            | .vectorIterator iter => do
                setPayload h (.vectorIterator { iter with index := iter.index + 1 })
                pure (some value)
            | _ => fail (err .type)
      | .otherRangeIterator _ => otherRangeNext h
      | .valueRangeIterator next finish => valueRangeNext h next finish
      | .optionIterator _ => optionNext h
      | _ => fail (err .type)
  | _ => fail (err .type)

end Store

end Rnx
