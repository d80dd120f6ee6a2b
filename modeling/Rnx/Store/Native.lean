import Rnx.Store.Release

/-!
# Reads and commits of the native tier

What `heap/native.rs` and `heap/hot.rs` let a region see of an iterator and write back to it.
Every check of a setter precedes its single write, so a refusal changes nothing.
-/

namespace Rnx

open ErrState (get update)

namespace Store

/-- A value whose release never touches the store. -/
def isSlotScalar (v : Value) : Bool := !v.isHeap

/-- The store is open and has nothing queued. -/
def scalarReleaseIsNoop (s : Store) : Bool := !s.closed && s.work.isEmpty

/-- Release the value a slot held. -/
def releaseSlot (v : Value) : M Unit := do
  let s ← get
  if isSlotScalar v && s.scalarReleaseIsNoop then pure () else release v

lemma releaseSlot_scalar {v : Value} {s : Store} (hv : isSlotScalar v = true)
    (hs : s.scalarReleaseIsNoop = true) : releaseSlot v s = (.ok (), s) := by
  unfold releaseSlot
  rw [ErrState.run_get_bind, hv, hs]
  rfl

/-- `new` is a position the iterator could reach from `(start, finish)`. -/
def rangeNextReachable (start finish new : I64) : Bool :=
  if start.val ≥ finish.val then new = start else start.val ≤ new.val ∧ new.val ≤ finish.val

/-- The position and the end of a range iterator that could be advanced. -/
def rangeIteratorForNative (s : Store) (v : Value) : Option (I64 × I64) :=
  match v with
  | .heap h => do
      let e ← (s.entry h).toOption
      if e.readers ≠ 0 then none
      else
        match e.payload with
        | .rangeIterator next finish => some (next, finish)
        | _ => none
  | _ => none

/-- A live vector iterator and its leased source. -/
structure VectorState where
  iterator : Value
  source : Value
  index : Nat
  len : Nat
  readers : Nat
deriving DecidableEq

/-- A vector iterator that could be advanced, with the lease its source carries. -/
def vectorIteratorForNative (s : Store) (v : Value) : Option VectorState :=
  match v with
  | .heap h => do
      let e ← (s.entry h).toOption
      if e.readers ≠ 0 then none
      else
        match e.payload with
        | .vectorIterator iter => do
            let source ← (s.entry iter.handle).toOption
            match source.payload with
            | .list .vec values =>
                if source.readers = 0 ∨ source.readers = exclusiveReaders ∨
                    values.items.length < iter.index ∨ 2 ^ 63 ≤ values.items.length then none
                else some ⟨v, .heap iter.handle, iter.index, values.items.length, source.readers⟩
            | _ => none
        | _ => none
  | _ => none

/-- Store the position of a range iterator, if it still stands where `expect` says. -/
def commitRangeNextForNative (v : Value) (expect : I64 × I64) (new : I64) : M Bool := do
  let s ← get
  if s.rangeIteratorForNative v ≠ some expect then pure false
  else if !rangeNextReachable expect.1 expect.2 new then pure false
  else
    match v with
    | .heap h =>
        match s.mutable h with
        | .ok (.rangeIterator _ finish) => do
            setPayload h (.rangeIterator new finish)
            pure true
        | _ => pure false
    | _ => pure false

end Store

end Rnx
