import Rnx.Store.Publication

/-!
# Operations on existing entries

Reading elements, replacing them and growing their containers.  Every replacement follows one
pattern (`replaceChild`): reserve, retain the new value, exchange it for the old one, release the
old one.  Growth happens off-store: the larger buffer is built and charged before it is swapped
in.
-/

namespace Rnx

open ErrState (get update fail read attempt ofExcept guardWith)

namespace Store

/-! ## Reading elements -/

/-- The element of a list, retained. -/
def getElement (v : Value) (index : Nat) : M Value :=
  match v with
  | .heap h => do
      match ← read (·.payload h) with
      | .list _ values =>
          match values.items[index]? with
          | some x => do
              retain x
              pure x
          | none => fail (err .indexOutOfBounds)
      | _ => fail (err .type)
  | _ => fail (err .type)

/-- The value of a record's field. -/
def fieldOf (fields : List (Text × Value)) (key : List Char) : Option Value :=
  (fields.find? (fun f => f.1.chars = key)).map Prod.snd

/-- The position of a record's field. -/
def fieldIndex (fields : List (Text × Value)) (key : List Char) : Option Nat :=
  fields.findIdx? (fun f => f.1.chars = key)

/-! ## Replacing a child -/

/-- Exchange one child of `h` for another: `p` is the payload with `new` where `old` stood. -/
def replaceChild (h : Handle) (p : Payload) (old new : Value) : M Unit := do
  let edges ← replacementEdges old new
  retain new
  setChild h p edges
  release old

/-- Overwrite one element of a list. -/
def set (v : Value) (index : Nat) (new : Value) : M Unit :=
  match v with
  | .heap h => do
      match ← read (·.mutable h) with
      | .list tag values =>
          match values.items[index]? with
          | some old => replaceChild h (.list tag (values.set index new)) old new
          | none => fail (err .indexOutOfBounds)
      | _ => fail (err .type)
  | _ => fail (err .type)

/-- The record with the value of its `i`-th field replaced. -/
def setField (fields : Buf (Text × Value)) (i : Nat) (new : Value) : Buf (Text × Value) :=
  match fields.items[i]? with
  | some f => fields.set i (f.1, new)
  | none => fields

/-- Overwrite an existing field; an equal value is left in place. -/
def fieldSetMut (v : Value) (key : List Char) (new : Value) : M Unit :=
  match v with
  | .heap h => do
      match ← read (·.mutable h) with
      | .record tag fields => do
          match fieldIndex fields.items key with
          | some i =>
              match fields.items[i]? with
              | some (_, old) => do
                  let s ← get
                  if old.eqv s.nominals new then
                    pure ()
                  else
                    replaceChild h (.record tag (setField fields i new)) old new
              | none => fail (err .invalidCode)
          | none => fail (err .invalidCode)
      | _ => fail (err .invalidCode)
  | _ => fail (err .invalidCode)

/-- The child a tuple index names for writing. -/
def tuplePlace (p : Payload) (index : Nat) : Option Value :=
  match p with
  | .list _ values => values.items[index]?
  | .variant tag success payload =>
      let accepted := match tag with
        | .option => index == 0
        | .result => index == if success then 0 else 1
        | _ => false
      if accepted then payload else none
  | _ => none

/-- The payload with the indexed child replaced. -/
def withTuplePlace (p : Payload) (index : Nat) (new : Value) : Payload :=
  match p with
  | .list tag values => .list tag (values.set index new)
  | .variant tag success _ => .variant tag success (some new)
  | p => p

/-- Replace the child of a tuple place; an equal value is left in place. -/
def replaceTuplePlace (h : Handle) (p : Payload) (index : Nat) (old new : Value) : M Unit := do
  let s ← get
  if old.eqv s.nominals new then
    pure ()
  else
    replaceChild h (withTuplePlace p index new) old new

/-- The operation an unsupported index names. -/
def unsupported (v : Value) : Error :=
  match v with
  | .function _ _ => .new .type "store"
  | _ => .new .type "execute"

/-- The error of a tuple index that cannot be set. -/
def tupleSetError (v : Value) : M Unit := do
  let target ← read (·.typeName v)
  fail ((unsupported v).withDetail (.tupleIndexSet target))

/-- Overwrite a tuple element or a variant's value. -/
def tupleSet (v : Value) (index : Nat) (new : Value) : M Unit :=
  match v with
  | .heap h => do
      let p ← read (·.mutable h)
      match tuplePlace p index with
      | some old => replaceTuplePlace h p index old new
      | none => tupleSetError v
  | _ => tupleSetError v

/-- The child a compound assignment through a tuple index names: a variant has one value, at 0. -/
def tuplePlaceMut (p : Payload) (index : Nat) : Option Value :=
  match p with
  | .list _ values => values.items[index]?
  | .variant _ _ payload => if index = 0 then payload else none
  | _ => none

/-- Overwrite a tuple element or a variant's value after it was read for writing. -/
def tupleSetMut (v : Value) (index : Nat) (new : Value) : M Unit :=
  match v with
  | .heap h => do
      let p ← read (·.mutable h)
      match tuplePlaceMut p index with
      | some old => replaceTuplePlace h p index old new
      | none => fail (err .invalidCode)
  | _ => fail (err .invalidCode)

/-! ## Ranges -/

/-- The endpoints of an ordinary range. -/
def rangeEndpoints : Payload → Except Error (Value × Value)
  | .range a b => .ok (.i64 a, .i64 b)
  | .valueRange a b => .ok (a, b)
  | _ => .error (err .invalidCode)

/-- Which endpoint a field name means. -/
inductive Endpoint
  | start | finish
deriving DecidableEq, Repr

/-- The endpoint a key names. -/
def endpoint (key : List Char) : Option Endpoint :=
  if key = "start".toList then some .start
  else if key = "end".toList then some .finish
  else none

/-- Overwrite an endpoint of a range, which may change its representation and its charge. -/
def setRangeField (h : Handle) (key : List Char) (new : Value) : M Unit :=
  match endpoint key with
  | none => fail (err .type)
  | some which => do
      let p ← read (·.mutable h)
      let (start, finish) ← ofExcept (rangeEndpoints p)
      let old := match which with
        | .start => start
        | .finish => finish
      let p := match which with
        | .start => canonicalRange new finish
        | .finish => canonicalRange start new
      let charge ← ofExcept p.bytes
      let bytes ← read (·.replacementBytes h charge)
      let edges ← replacementEdges old new
      retain new
      setCharged h p charge bytes edges
      release old

/-- Overwrite an endpoint another range shape has. -/
def setOtherRangeField (h : Handle) (key : List Char) (new : Value) : M Unit := do
  match ← read (·.mutable h) with
  | .otherRange shape =>
      match endpoint key with
      | some .start =>
          match shape.start with
          | some old => replaceChild h (.otherRange { shape with start := some new }) old new
          | none => fail (err .type)
      | some .finish =>
          match shape.finish with
          | some old => replaceChild h (.otherRange { shape with finish := some new }) old new
          | none => fail (err .type)
      | none => fail (err .type)
  | _ => fail (err .invalidCode)

/-! ## Strings -/

/-- Replace a string's buffer by a larger one, charging what it really holds. -/
def replaceText (h : Handle) (t : Text) : M Unit := do
  let bytes ← read (·.replacementBytes h t.capacity)
  let s ← get
  setCharged h (.string t) t.capacity bytes s.edges

/-- Append one string to another, possibly itself. -/
def appendString (target rhs : Value) : M Unit :=
  match target with
  | .heap h => do
      match ← read (·.mutable h) with
      | .string t => do
          let suffix ← read (·.text rhs)
          let len ← ofExcept (okOr (checkedAdd t.len (utf8Len suffix)) (err .overflow))
          ensureRoom (len - t.capacity)
          if len > t.capacity then do
            alloc len
            replaceText h (.copy (t.chars ++ suffix))
          else do
            alloc (utf8Len suffix)
            match t.pushWithin suffix with
            | some t => setPayload h (.string t)
            | none => fail allocError
      | _ => fail (err .type)
  | _ => fail (err .type)

/-- Append a character to a string. -/
def pushChar (v new : Value) : M Unit :=
  match v with
  | .heap h => do
      match ← read (·.mutable h) with
      | .string t => do
          match new with
          | .char c => do
              let needed ← ofExcept (okOr (checkedAdd t.len c.utf8Size) (err .storeCapacity))
              ensureRoom (needed - t.capacity)
              if needed > t.capacity then do
                alloc needed
                replaceText h (.copy (t.chars ++ [c]))
              else do
                match t.pushWithin [c] with
                | some t => setPayload h (.string t)
                | none => fail allocError
          | new => do
              let found ← read (·.typeName new)
              fail ((err .type).withDetail (.expectedChar found))
      | _ => fail (err .invalidCode)
  | _ => fail (err .invalidCode)

/-! ## Vectors -/

/-- The capacity and charge of the next larger vector. -/
structure Growth where
  capacity : Nat
  bytes : Nat

/-- `Growth::bytes`. -/
def Growth.bytesOf (capacity : Nat) : Except Error Nat :=
  okOr (checkedMul capacity sizeValue) (err .overflow)

/-- `Growth::next`: twice the capacity, at least one. -/
def Growth.next (capacity : Nat) : Except Error Growth := do
  let doubled ← okOr (checkedMul capacity 2) (err .overflow)
  let bytes ← Growth.bytesOf (max doubled 1)
  pure ⟨max doubled 1, bytes⟩

/-- Append a value to a vector, or a character to a string. -/
def push (v new : Value) : M Unit :=
  match v with
  | .heap h => do
      let tag ← read (·.tag v)
      if tag = .string then
        pushChar v new
      else do
        match ← read (·.mutable h) with
        | .list .vec values => do
            let s ← get
            let edges ← ofExcept (okOr (checkedAdd s.edges new.heapEdge) (err .overflow))
            reserveWork new.heapEdge 0
            match values.pushWithin new with
            | some values => do
                retain new
                setChild h (.list .vec values) edges
            | none => do
                let growth ← ofExcept (Growth.next values.capacity)
                let _ ← read (·.replacementBytes h growth.bytes)
                alloc growth.bytes
                let grown := Buf.filled growth.capacity (values.items ++ [new])
                let charged ← ofExcept (Growth.bytesOf grown.capacity)
                let bytes ← read (·.replacementBytes h charged)
                retain new
                setCharged h (.list .vec grown) charged bytes edges
        | _ => fail (err .type)
  | _ => fail (err .type)

/-! ## Records -/

/-- A key given by the program, or by a string value read when it is needed. -/
inductive RecordKey
  | static (key : List Char)
  | dynamic (key : Value)

/-- The text of a key. -/
def RecordKey.text (s : Store) : RecordKey → Except Error (List Char)
  | .static key => .ok key
  | .dynamic v => s.text v

/-- The key bytes of the fields, checking every addition. -/
def fieldsKeyBytes (fields : Buf (Text × Value)) : Except Error Nat :=
  okOr (Payload.keyBytes 0 fields.items) (err .overflow)

/-- The bytes of a record with this field capacity and these key bytes. -/
def fieldsCharge (capacity keyBytes extra : Nat) : Except Error Nat :=
  okOr (((checkedMul capacity sizeField).bind (checkedAdd · keyBytes)).bind (checkedAdd · extra))
    (err .overflow)

/-- Add a field to an object.  The larger field vector, if one is needed, and the key are
allocated and charged before the value is retained. -/
def insertKey (h : Handle) (tag : Ty) (fields : Buf (Text × Value)) (key : List Char)
    (new : Value) : M Unit := do
  let full := fields.items.length = fields.capacity
  let keyBytes ← ofExcept (fieldsKeyBytes fields)
  let next ← ofExcept (if full then (okOr (checkedMul fields.capacity 2) (err .overflow)).map (max · 1)
    else .ok fields.capacity)
  let planned ← ofExcept (fieldsCharge next keyBytes (utf8Len key))
  let _ ← read (·.replacementBytes h planned)
  alloc (utf8Len key)
  if full then alloc (next * sizeField)
  let charged ← ofExcept (fieldsCharge next keyBytes (utf8Len key))
  let bytes ← read (·.replacementBytes h charged)
  let s ← get
  let edges ← ofExcept (okOr (checkedAdd s.edges new.heapEdge) (err .overflow))
  reserveWork new.heapEdge 0
  guardWith (fields.items.length + 1 ≤ next) (.new .invalidCode "field capacity")
  retain new
  setCharged h (.record tag (.filled next (fields.items ++ [(.copy key, new)]))) charged bytes edges

/-- Write a field: an existing one is overwritten, an object gains a missing one. -/
def setKey (v : Value) (key : RecordKey) (new : Value) : M Unit :=
  match v with
  | .heap h => do
      let p ← read (·.mutable h)
      let text ← read key.text
      match p with
      | .record tag fields =>
          match fieldIndex fields.items text with
          | some i =>
              match fields.items[i]? with
              | some (_, old) => replaceChild h (.record tag (setField fields i new)) old new
              | none => fail (err .invalidCode)
          | none =>
              if tag = .object then
                insertKey h tag fields text new
              else do
                let target ← read (·.typeName v)
                fail ((err .indexOutOfBounds).withDetail (.missingKey target))
      | _ => fail (err .invalidCode)
  | _ => fail (err .invalidCode)

/-- The object fields of a receiver. -/
def objectFields (s : Store) : Value → Except Error (Buf (Text × Value))
  | .heap h => do
      match ← s.payload h with
      | .record .object fields => .ok fields
      | _ => .error (err .invalidCode)
  | _ => .error (err .invalidCode)

/-- Release a result that will not be returned, then fail. -/
def rollback {α : Type} (result : Value) (e : Error) : M α := do
  release result
  fail e

/-- Take a field out of an object, keeping the order of the rest, and return it as `Some`. -/
def removeField (receiver : Value) (i : Nat) : M Value :=
  match receiver with
  | .heap h => do
      let fields ← read (·.objectFields receiver)
      match fields.items[i]? with
      | some (key, old) => do
          let result ← variant .option true (some old)
          let staged ← attempt (do
            let e ← read (·.entry h)
            let charged ← ofExcept (okOr (checkedSub e.chargedBytes key.capacity) (err .invalidCode))
            let bytes ← read (·.replacementBytes h charged)
            let edges ← replacementEdges old .unit
            pure (charged, bytes, edges))
          match staged with
          | .error e => rollback result e
          | .ok (charged, bytes, edges) => do
              match ← read (·.mutable h) with
              | .record tag fields => do
                  setCharged h (.record tag (fields.remove i)) charged bytes edges
                  release old
                  pure result
              | _ => fail (err .invalidCode)
      | none => fail (err .invalidCode)
  | _ => fail (err .invalidCode)

/-- The position of a key in an object. -/
def keyIndex (s : Store) (receiver key : Value) : Except Error (Option Nat) := do
  let text ← s.text key
  let fields ← s.objectFields receiver
  pure (fieldIndex fields.items text)

/-- Store the new value and hand over the wrapped old one, or take that back. -/
def insertWrapped (receiver key new result : Value) : M Value := do
  match ← attempt (setKey receiver (.dynamic key) new) with
  | .ok () => pure result
  | .error e => rollback result e

/-- Store a copy of `key` with `new` and return the previous value. -/
def insertField (receiver key new : Value) : M Value := do
  let index ← read (·.keyIndex receiver key)
  let fields ← read (·.objectFields receiver)
  let result ←
    match index.bind (fields.items[·]?) with
    | some (_, old) => variant .option true (some old)
    | none => variant .option false none
  insertWrapped receiver key new result

/-- The access failure of a native argument names the argument. -/
def argumentAccess (e : Error) (arg readers : Nat) : Error :=
  match e.detail with
  | .moved access => e.withDetail (.movedArgument arg access)
  | .writeBorrowed => e.withDetail (.sharedArgument arg readers)
  | .takeBorrowed => e.withDetail (.takeSharedArgument arg readers)
  | .readExclusive => e.withDetail (.exclusiveArgument .read arg)
  | .writeExclusive => e.withDetail (.exclusiveArgument .write arg)
  | .takeExclusive => e.withDetail (.exclusiveArgument .take arg)
  | _ => e

/-- Check the access a native argument conversion makes. -/
def argument (s : Store) (v : Value) (arg : Nat) (access : MovedAccess) : Except Error Unit :=
  match v with
  | .heap h =>
      let readers := ((s.entry h).toOption.map Entry.readers).getD 0
      let result : Except Error Payload :=
        match access with
        | .read => s.payload h
        | .write => s.mutable h
        | .take => do
            let e ← s.entry h
            if e.readers ≠ 0 then .error (conflict .take e)
            else (s.payload h).mapError fun e =>
              match e.detail with
              | .moved _ => e.withDetail (.moved .take)
              | _ => e
      (result.map fun _ => ()).mapError (argumentAccess · arg readers)
  | _ => .ok ()

/-- The key argument of an object method: a string, checked before it is read. -/
def keyArgument (s : Store) (key : Value) : Except Error Unit :=
  match s.tag key with
  | .ok .string => s.argument key 1 .read
  | _ => do
      let found ← s.typeName key
      .error ((err .type).withDetail (.numericArgumentType .expectedType 1 .string found))

/-- The certified methods of objects. -/
inductive ObjectMethod
  | isEmpty | containsKey | get | remove | insert
deriving DecidableEq, Repr

/-- Whether a method is provided by receivers of a type. -/
def ObjectMethod.provided (m : ObjectMethod) : Option Ty → Bool
  | some .object => true
  | some .vec | some .tuple | some .string | some .unit => m = .isEmpty
  | _ => false

/-- The name a missing method is reported under. -/
def ObjectMethod.name : ObjectMethod → String
  | .isEmpty => "is_empty"
  | .containsKey => "contains_key"
  | .get => "get"
  | .remove => "remove"
  | .insert => "insert"

/-- The type of a value for dispatch; functions and types have none. -/
def indexTag (s : Store) : Value → Except Error (Option Ty)
  | .heap h => (s.entry h).map (some ·.payload.tag)
  | v => .ok v.primitiveType

/-- `Store::text_missing`: the error of a method its receiver does not have.  A declared type has
to be in the table for its hash. -/
def missingMethod (s : Store) (receiver : Value) (method : String) : Except Error Error := do
  let target ← s.typeName receiver
  match target with
  | .struct n => ensure ((s.nominals.shape n).isSome = true) (err .invalidCode)
  | _ => pure ()
  pure ((err .type).withDetail (.missingInstanceFunction target method))

/-- Run a certified method of an object on evaluated operands. -/
def objectMethod (m : ObjectMethod) (receiver key new : Value) : M Value := do
  let tag ← read (·.indexTag receiver)
  if m.provided tag then
    match m with
    | .isEmpty => do
        read (·.argument receiver 0 .read)
        let n ← read (·.len receiver)
        pure (.bool (n = 0))
    | .containsKey => do
        read (·.argument receiver 0 .read)
        read (·.keyArgument key)
        let index ← read (·.keyIndex receiver key)
        pure (.bool index.isSome)
    | .get => do
        read (·.argument receiver 0 .read)
        read (·.keyArgument key)
        let index ← read (·.keyIndex receiver key)
        let fields ← read (·.objectFields receiver)
        match index.bind (fields.items[·]?) with
        | some (_, old) => variant .option true (some old)
        | none => variant .option false none
    | .remove => do
        read (·.argument receiver 0 .write)
        read (·.keyArgument key)
        match ← read (·.keyIndex receiver key) with
        | some i => removeField receiver i
        | none => variant .option false none
    | .insert => do
        read (·.argument receiver 0 .write)
        read (·.keyArgument key)
        insertField receiver key new
  else do
    let e ← read (·.missingMethod receiver m.name)
    fail e

end Store

end Rnx
