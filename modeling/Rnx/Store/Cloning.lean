import Rnx.Store.Cursor

/-!
# Cloning

`cloneValue` copies a value through tuples, `Option` and `Result` with an explicit stack of
frames.  The source runs it as a closure that writes the locals it captured even when it fails, so
the locals are part of the state here: `CM` is a computation on the locals and the store.

A frame marks the entry it copies; a marked entry met again is a cycle and is refused.  What was
built is released on every failure, the most recent first.
-/

namespace Rnx

open ErrState (get update fail read attempt ofExcept guardWith)

namespace Store

/-! ## Locals -/

/-- What a frame will build. -/
inductive CloneKind
  | tuple
  | variant (tag : Ty) (success : Bool)
deriving DecidableEq

/-- An entry being copied: the next child to copy, their number, and the copies so far. -/
structure Frame where
  handle : Handle
  kind : CloneKind
  next : Nat
  length : Nat
  children : Buf Value

/-- The captured locals: the bytes held in scratch, the stack with its top first, its capacity,
and the value to copy or just copied. -/
structure Cloning where
  scratch : Nat
  stack : List Frame
  stackCap : Nat
  pending : Option Value
  completed : Option Value

/-- A computation on the locals and the store. -/
abbrev CM := ErrState Error (Cloning × Store)

/-- A store operation among the locals. -/
def onStore {α : Type} (m : M α) : CM α := fun c =>
  match m c.2 with
  | (r, s) => (r, (c.1, s))

/-- The locals. -/
def locals : CM Cloning := fun c => (.ok c.1, c)

/-- Write the locals. -/
def setLocals (f : Cloning → Cloning) : CM Unit := fun c => (.ok (), (f c.1, c.2))

/-- Run a computation from given locals and hand over its outcome and the locals it left. -/
def runLocals {α : Type} (m : CM α) (c : Cloning) : M (Except Error α × Cloning) := fun s =>
  match m (c, s) with
  | (r, (c, s)) => (.ok (r, c), s)

/-! ## Room -/

/-- `size_of::<Frame>()`. -/
def sizeFrame : Nat := 64

/-- What was built since `start`, the scratch and `extra` more bytes fit the budget. -/
def cloneRoom (s : Store) (start scratch extra : Nat) : Except Error Unit := do
  let used ← okOr (((checkedSub s.bytes start).bind (checkedAdd · scratch)).bind
    (checkedAdd · extra)) (err .storeCapacity)
  ensure (used ≤ s.limits.bytes - start) (err .storeCapacity)

/-- Admit a copy. -/
def admitClone (p : Payload) (start scratch : Nat) : M Value := do
  let charge ← ofExcept p.bytes
  read (·.cloneRoom start scratch charge)
  admitPayload p

/-- Copy the keys of a record, checking the room after every one. -/
def cloneKeys (start scratch capacity : Nat) : List (Text × Value) → Nat → M Unit
  | [], _ => pure ()
  | f :: fs, keyBytes => do
      alloc f.1.len
      let keyBytes ← ofExcept (okOr (checkedAdd keyBytes f.1.len) (err .storeCapacity))
      let actual ← ofExcept (okOr ((checkedMul capacity sizeField).bind (checkedAdd · keyBytes))
        (err .storeCapacity))
      read (·.cloneRoom start scratch actual)
      cloneKeys start scratch capacity fs keyBytes

/-- The key lengths of a record added to `n`. -/
def keyLengths (n : Nat) (fields : List (Text × Value)) : Option Nat :=
  fields.foldl (fun acc f => acc.bind (checkedAdd · f.1.len)) (some n)

/-- Copy a value that needs no frame: strings, vectors, objects and structs are copied one level
deep, scalars and closures are shared. -/
def cloneLeaf (v : Value) (start scratch : Nat) : M Value :=
  match v with
  | .heap h => do
      match ← read (·.payload h) with
      | .closure _ _ _ => do
          retain v
          pure v
      | .string t => do
          read (·.cloneRoom start scratch t.len)
          alloc t.len
          admitClone (.string (.copy t.chars)) start scratch
      | .list tag values =>
          match tag with
          | .vec | .struct _ => do
              let size ← ofExcept (okOr (checkedMul values.items.length sizeValue)
                (err .storeCapacity))
              read (·.cloneRoom start scratch size)
              alloc size
              admitClone (.list tag (.copy values.items)) start scratch
          | _ => do
              let e ← read (·.entry h)
              fail ((err .type).withDetail (.noCloneProtocol (.fromType e.payload.tag)))
      | .record tag fields =>
          match tag with
          | .object | .struct _ => do
              let size ← ofExcept (okOr ((checkedMul fields.items.length sizeField).bind
                (keyLengths · fields.items)) (err .storeCapacity))
              read (·.cloneRoom start scratch size)
              alloc (fields.items.length * sizeField)
              cloneKeys start scratch fields.items.length fields.items 0
              admitClone (.record tag (.copy (fields.items.map fun f => (.copy f.1.chars, f.2))))
                start scratch
          | _ => do
              let e ← read (·.entry h)
              fail ((err .type).withDetail (.noCloneProtocol (.fromType e.payload.tag)))
      | _ => do
          let e ← read (·.entry h)
          fail ((err .type).withDetail (.noCloneProtocol (.fromType e.payload.tag)))
  | v => do
      retain v
      pure v

/-! ## Frames -/

/-- What an entry is copied as, and the number of its children. -/
def frameShape : Payload → Except Error (CloneKind × Nat)
  | .list .tuple values => .ok (.tuple, values.items.length)
  | .variant tag success payload => .ok (.variant tag success, payload.toList.length)
  | _ => .error (err .invalidCode)

/-- Make room for one more frame, twice as many at a time. -/
def growStack (start : Nat) : CM Unit := do
  let c ← locals
  if c.stack.length = c.stackCap then do
    let capacity ← ofExcept ((okOr (checkedMul c.stackCap 2) (err .storeCapacity)).map (max · 1))
    let old ← ofExcept (okOr (checkedMul c.stackCap sizeFrame) (err .storeCapacity))
    let extra ← ofExcept (okOr ((checkedMul capacity sizeFrame).bind (checkedSub · old))
      (err .storeCapacity))
    onStore (read (·.cloneRoom start c.scratch extra))
    onStore (alloc (capacity * sizeFrame))
    let scratch ← ofExcept (okOr (((checkedSub c.scratch old).bind fun n =>
      (checkedMul capacity sizeFrame).bind (checkedAdd n ·))) (err .storeCapacity))
    setLocals fun c => { c with stackCap := capacity, scratch := scratch }
    onStore (read (·.cloneRoom start scratch 0))

/-- Mark an entry, or clear its mark. -/
def setClonePath (h : Handle) (mark : Bool) : M Unit := do
  let _ ← read (·.entry h)
  update (·.modify h.slot fun e => { e with clonePath := mark })

/-- Push a frame for an entry, which must not be marked already, and mark it. -/
def cloneFrame (h : Handle) (start : Nat) : CM Unit := do
  let e ← onStore (read (·.entry h))
  guardWith (e.clonePath = false) (err .storeCapacity)
  let p ← onStore (read (·.payload h))
  let (kind, length) ← ofExcept (frameShape p)
  growStack start
  let c ← locals
  let size ← ofExcept (okOr (checkedMul length sizeValue) (err .storeCapacity))
  onStore (read (·.cloneRoom start c.scratch size))
  onStore (alloc size)
  onStore (read (·.cloneRoom start c.scratch size))
  guardWith (c.stack.length < c.stackCap) (err .invalidCode)
  let scratch ← ofExcept (okOr (checkedAdd c.scratch size) (err .storeCapacity))
  onStore (setClonePath h true)
  setLocals fun c => { c with
    stack := ⟨h, kind, 0, length, .filled length []⟩ :: c.stack
    scratch := scratch }

/-- The payload a finished frame builds. -/
def finishPayload (frame : Frame) : Payload :=
  match frame.kind with
  | .tuple => .list .tuple (.copy frame.children.items)
  | .variant tag success => .variant tag success frame.children.items.head?

/-- Build the copy of a finished frame. -/
def finishClone (frame : Frame) (start scratch : Nat) : M Value := do
  match frame.kind with
  | .tuple => do
      let size ← ofExcept (okOr (checkedMul frame.children.items.length sizeValue)
        (err .storeCapacity))
      read (·.cloneRoom start scratch size)
      alloc size
  | .variant _ _ => pure ()
  admitClone (finishPayload frame) start scratch

/-- Release values, keeping the first failure. -/
def releaseAll : List Value → Option Error → M (Option Error)
  | [], failure => pure failure
  | v :: vs, failure => do
      let r ← attempt (release v)
      releaseAll vs (firstError failure r)

/-- The child a frame copies next. -/
def frameChild (p : Payload) (next : Nat) : Except Error Value :=
  match p with
  | .list _ values => okOr values.items[next]? (err .invalidCode)
  | .variant _ _ (some v) => .ok v
  | _ => .error (err .invalidCode)

/-! ## The loop -/

/-- Whether a value is copied with a frame. -/
def needsFrame : Ty → Bool
  | .tuple | .option | .result => true
  | _ => false

/-- Start copying the pending value, if there is one. -/
def clonePending (start : Nat) : CM Unit := do
  let c ← locals
  setLocals fun c => { c with pending := none }
  match c.pending with
  | none => pure ()
  | some (.heap h) => do
      let e ← onStore (read (·.entry h))
      if needsFrame e.payload.tag then
        cloneFrame h start
      else do
        let v ← onStore (cloneLeaf (.heap h) start c.scratch)
        setLocals fun c => { c with completed := some v }
  | some v => do
      let v ← onStore (cloneLeaf v start c.scratch)
      setLocals fun c => { c with completed := some v }

/-- Hand a finished copy to the frame below, or return it. -/
def cloneCompleted : CM (Option Value) := do
  let c ← locals
  match c.completed with
  | none => pure none
  | some v =>
      match c.stack with
      | [] => do
          setLocals fun c => { c with completed := none }
          pure (some v)
      | parent :: rest =>
          match parent.children.pushWithin v with
          | some children => do
              setLocals fun c => { c with
                completed := none
                stack := { parent with children := children } :: rest }
              pure none
          | none => fail (err .invalidCode)

/-- Let go of the children of a finished frame and take up its copy. -/
def cloneSettle (frame : Frame) (result : Except Error Value) : CM Unit := do
  let c ← locals
  let cleanup ← onStore (releaseAll frame.children.items none)
  let scratch ← ofExcept (okOr (checkedSub c.scratch (frame.children.capacity * sizeValue))
    (err .invalidCode))
  setLocals fun c => { c with scratch := scratch }
  let v ← ofExcept result
  setLocals fun c => { c with completed := some v }
  match cleanup with
  | some e => fail e
  | none => pure ()

/-- Go on with the top frame: fetch its next child, or build its copy and let go of the
children. -/
def cloneTop (start : Nat) : CM Unit := do
  let c ← locals
  match c.stack with
  | [] => fail (err .invalidCode)
  | frame :: rest =>
      if frame.next < frame.length then do
        let p ← onStore (read (·.payload frame.handle))
        let v ← ofExcept (frameChild p frame.next)
        setLocals fun c => { c with
          pending := some v
          stack := { frame with next := frame.next + 1 } :: rest }
      else do
        setLocals fun c => { c with stack := rest }
        onStore (setClonePath frame.handle false)
        let result ← onStore (attempt (finishClone frame start c.scratch))
        cloneSettle frame result

/-- One round of the loop. -/
def cloneRound (start : Nat) : CM (Option Value) := do
  clonePending start
  match ← cloneCompleted with
  | some v => pure (some v)
  | none => do
      cloneTop start
      pure none

/-- The loop.  The fuel bounds the source's `loop`. -/
def cloneLoop (start : Nat) : Nat → CM Value
  | 0 => fail (err .invalidCode)
  | fuel + 1 => do
      match ← cloneRound start with
      | some v => pure v
      | none => cloneLoop start fuel

/-- Enough rounds: a frame is on the stack or has become one of the entries the store can hold, and
its children fit the byte limit. -/
def cloneFuel (s : Store) : Nat := 2 * (s.limits.entries + 1) * (s.limits.bytes + 2)

/-- Let go of what the frames hold, the top one first. -/
def unwindFrames : List Frame → M Unit
  | [] => pure ()
  | frame :: rest => do
      let _ ← attempt (setClonePath frame.handle false)
      let _ ← releaseAll frame.children.items none
      unwindFrames rest

/-- Let go of everything a failed clone holds. -/
def unwindClone (c : Cloning) : M Unit := do
  match c.completed with
  | some v => do
      let _ ← attempt (release v)
  | none => pure ()
  unwindFrames c.stack

/-- Copy a value. -/
def cloneValue (v : Value) : M Value := do
  let s ← get
  let (result, c) ← runLocals (cloneLoop s.bytes s.cloneFuel) ⟨0, [], 0, some v, none⟩
  match result with
  | .ok v => pure v
  | .error e => do
      unwindClone c
      fail e

end Store

end Rnx
