import Rnx.Lib.ErrState

/-!
# Writing JSON

`stringify` of `json.rs` and the serializer of Rune's values.  A graph of values may share and may
be cyclic; the guard walks it first, refuses what the serializer would refuse and names where, and
then the serializer walks it again.  The guard counts levels from the value it is given; the
serializer counts them for the whole thread, from the walks over values that are in progress.
-/

namespace Rnx

namespace Json

/-- `MAX_VALUE_DEPTH`. -/
def maxDepth : Nat := 64

/-- `Inline`. -/
inductive Inline
  | empty
  | unit
  | bool (b : Bool)
  | char (c : Char)
  | unsigned (n : UInt64)
  | signed (n : Int64)
  | float (bits : UInt64)
  | type (hash : UInt64)
  | ordering (o : Ordering)
  | hash (h : UInt64)
deriving DecidableEq, Repr

/-- `RttiKind`. -/
inductive RttiKind
  | empty
  | tuple
  | struct
deriving DecidableEq, Repr

/-- A value: inline, of a type that a script declared, or the address of a shared cell.  `locked`
data is borrowed exclusively. -/
inductive Value
  | inline (i : Inline)
  | dynamic (kind : RttiKind) (item : String) (locked : Bool)
  | any (address : Nat)
deriving DecidableEq, Repr

/-- What a cell holds. -/
inductive Body
  | string (s : String)
  | bytes (b : List UInt8)
  | vec (items : List Value)
  | tuple (items : List Value)
  | object (entries : List (String × Value))
  | option (inner : Option Value)
  | result
  | function
  | other
deriving DecidableEq, Repr

/-- A cell; a `locked` one is borrowed exclusively. -/
structure Cell where
  locked : Bool
  body : Body
deriving DecidableEq, Repr

/-- What the serializer tells a writer. -/
inductive Doc
  | unit
  | bool (b : Bool)
  | char (c : Char)
  | u64 (n : UInt64)
  | i64 (n : Int64)
  | f64 (bits : UInt64)
  | str (s : String)
  | bytes (b : List UInt8)
  | none
  | some (d : Doc)
  | seq (items : List Doc)
  | map (entries : List (String × Doc))

/-- A graph of values, with the texts of its types and of refused accesses, the quoted form of a
text, and the text a JSON writer makes. -/
structure Graph where
  cell : Nat → Cell
  typeInfo : Value → String
  access : Nat → String
  debug : String → String
  write : Doc → String

/-! ## Paths -/

/-- `Step`. -/
inductive Step
  | key (name : String)
  | index (i : Nat)
deriving DecidableEq, Repr

/-- The walk's path into the value and the addresses of the containers it is in. -/
structure Trail where
  path : List Step
  active : List Nat
deriving DecidableEq, Repr

variable (g : Graph)

/-- `plain`. -/
def plain (key : String) : Bool :=
  !key.isEmpty && !(key.toList.head?.any Char.isDigit) &&
    key.toList.all fun c => c.isAlphanum || c == '_'

/-- A step of `where_it_is`. -/
def Step.shown : Step → String
  | .key name => if plain name = true then "." ++ name else "[" ++ g.debug name ++ "]"
  | .index i => "[" ++ toString i ++ "]"

/-- `where_it_is`. -/
def whereItIs (path : List Step) : String :=
  if path.isEmpty = true then "the value itself" else String.join (path.map (Step.shown g))

/-- `too_deep`. -/
def tooDeep (path : List Step) : String :=
  "cannot serialize a value nested deeper than " ++ toString maxDepth ++ " levels, reached at " ++
    whereItIs g path

/-- `refuse`. -/
def refuse (what : String) (path : List Step) : String :=
  "cannot serialize " ++ what ++ " at " ++ whereItIs g path

/-- Fail with a message about the place the walk is at. -/
def refuseHere (what : String) : ErrState String Trail Unit := do
  let t ← .get
  .fail (refuse g what t.path)

/-! ## The guard -/

/-- `inline`. -/
def inline (value : Value) : Inline → ErrState String Trail Unit
  | .bool _ => pure ()
  | .char _ => pure ()
  | .signed _ => pure ()
  | .unsigned _ => pure ()
  | .float _ => pure ()
  | _ => refuseHere g (g.typeInfo value)

/-- The loop of `descend` over the items, each with the step to it. -/
def children (walk : Value → ErrState String Trail Unit) :
    List (Step × Value) → ErrState String Trail Unit
  | [] => pure ()
  | (step, item) :: rest => do
      .update fun t => { t with path := t.path ++ [step] }
      let outcome ← .attempt (walk item)
      .update fun t => { t with path := t.path.dropLast }
      match outcome with
      | .error reason => do
          .update fun t => { t with active := t.active.dropLast }
          .fail reason
      | .ok () => children walk rest

/-- `descend`, with `left` levels below the container. -/
def descend (walk : Value → ErrState String Trail Unit) (left address : Nat)
    (items : List (Step × Value)) : ErrState String Trail Unit := do
  let t ← .get
  if t.active.contains address = true then .fail (refuse g "a cycle" t.path)
  else if left = 0 ∧ items ≠ [] then .fail (tooDeep g t.path)
  else
    .update fun t => { t with active := t.active ++ [address] }
    children walk items
    .update fun t => { t with active := t.active.dropLast }

/-- The items of a sequence, each with its index. -/
def indexed (items : List Value) : List (Step × Value) :=
  items.mapIdx fun i item => (.index i, item)

/-- The items of an object, each with its key. -/
def keyed (entries : List (String × Value)) : List (Step × Value) :=
  entries.map fun entry => (.key entry.1, entry.2)

/-- `walk`, where `left` levels may still be entered: at depth `d` they are `maxDepth + 1 - d`. -/
def walk : Nat → Value → ErrState String Trail Unit
  | 0, _ => do
      let t ← .get
      .fail (tooDeep g t.path)
  | left + 1, value =>
      match value with
      | .any address =>
          if (g.cell address).locked = true then
            refuseHere g (g.typeInfo value ++ " (an external reference)")
          else
            match (g.cell address).body with
            | .string _ => pure ()
            | .vec items => descend g (walk left) left address (indexed items)
            | .bytes _ => pure ()
            | .option (some inner) => walk left inner
            | .option none => pure ()
            | .result => refuseHere g "a result"
            | .function => refuseHere g "a function"
            | .tuple items => descend g (walk left) left address (indexed items)
            | .object entries => descend g (walk left) left address (keyed entries)
            | .other => refuseHere g (g.typeInfo value ++ " (an external reference)")
      | .inline .unit => pure ()
      | .inline i => inline g value i
      | .dynamic kind item locked =>
          match kind with
          | .empty => refuseHere g ("empty struct " ++ item)
          | .tuple =>
              if locked = true then refuseHere g (g.typeInfo value ++ " (an external reference)")
              else refuseHere g ("tuple struct " ++ item)
          | .struct =>
              if locked = true then refuseHere g (g.typeInfo value ++ " (an external reference)")
              else refuseHere g ("struct " ++ item)

/-! ## The serializer -/

/-- `serialize` of an inline value. -/
def inlineDoc : Inline → Except String Doc
  | .empty => .error "cannot serialize empty values"
  | .unit => .ok .unit
  | .bool b => .ok (.bool b)
  | .char c => .ok (.char c)
  | .unsigned n => .ok (.u64 n)
  | .signed n => .ok (.i64 n)
  | .float bits => .ok (.f64 bits)
  | .type _ => .error "cannot serialize types"
  | .ordering _ => .error "cannot serialize orderings"
  | .hash _ => .error "cannot serialize type hashes"

/-- The entries of a map, each serialized. -/
def entryDoc (serialize : Value → Except String Doc) (entry : String × Value) :
    Except String (String × Doc) := do
  let d ← serialize entry.2
  .ok (entry.1, d)

/-- `serialize`, where `left` levels may still be entered: with `d` walks in progress on the thread
they are `maxDepth - d`. -/
def serialize : Nat → Value → Except String Doc
  | 0, _ => .error ("Value is nested too deeply to walk, limit is " ++ toString maxDepth)
  | left + 1, value =>
      match value with
      | .inline i => inlineDoc i
      | .dynamic .empty item _ => .error ("cannot serialize empty struct " ++ item)
      | .dynamic .tuple item _ => .error ("cannot serialize tuple struct " ++ item)
      | .dynamic .struct item _ => .error ("cannot serialize struct " ++ item)
      | .any address =>
          match (g.cell address).body with
          | .result => .error "cannot serialize external references"
          | .function => .error "cannot serialize external references"
          | .other => .error "cannot serialize external references"
          | body =>
              if (g.cell address).locked = true then .error (g.access address)
              else
                match body with
                | .option (some inner) => (serialize left inner).map .some
                | .option none => .ok .none
                | .string s => .ok (.str s)
                | .bytes b => .ok (.bytes b)
                | .vec items => (items.mapM (serialize left)).map .seq
                | .tuple items => (items.mapM (serialize left)).map .seq
                | .object entries => (entries.mapM (entryDoc (serialize left))).map .map
                | _ => .error "cannot serialize external references"

/-- `stringify`, while `depth` walks over values are in progress on the thread. -/
def stringify (depth : Nat) (value : Value) : Except String String :=
  match (walk g maxDepth value ⟨[], []⟩).1 with
  | .error reason => .error reason
  | .ok () =>
      match serialize g (maxDepth - depth) value with
      | .ok d => .ok (g.write d)
      | .error e => .error ("the JSON writer refused a walked value: " ++ e)

end Json

end Rnx
