import Rnx.Store.Comparison
import Rnx.Store.Enumeration

/-!
# Reading an iterator from the back

`heap/iter_terminals.rs` reads a reversed source by offsets from its front, without advancing it.
The offsets count the items that advancing it would yield: those of a vector or a tuple, of an
option, and of ranges, where no sum leaves its integer type and characters are counted without the
surrogates.
-/

namespace Rnx

open ErrState (read fail guardWith ofExcept Yields)

/-! ## Machine integers -/

/-- `u32` arithmetic, which wraps. -/
def wrapU32 (n : Int) : Nat := (n % 2 ^ 32).toNat

/-- `u64` arithmetic, which wraps. -/
def U64.wrap (n : Int) : U64 := ⟨(n % 2 ^ 64).toNat, by omega⟩

/-- `i64::abs_diff`. -/
def I64.absDiff (a b : I64) : U64 :=
  ⟨(a.val - b.val).natAbs, by have := a.lower; have := a.upper; have := b.lower; have := b.upper; omega⟩

/-- `i64::wrapping_add` of a count that is read as an `i64`. -/
def I64.wrappingAdd (a : I64) (n : U64) : I64 := .ofWord (a.toWord + BitVec.ofNat 64 n.val)

namespace Store

/-! ## The front and the length -/

/-- The front and the length of a reversed source, read without advancing it. -/
inductive Reversed
  | list (root : Handle) (index len : Nat)
  | option (payload : Option Value)
  | signed (first : I64) (last : Option U64)
  | unsigned (first : U64) (last : Option U64)
  | char (first : Char) (count : U64)

/-- `char_count`: the characters in `a..b`. -/
def charCount (a b : Char) : U64 :=
  if a.toNat ≥ b.toNat then .wrap 0
  else
    let gap := min b.toNat 0xe000 - max a.toNat 0xd800
    .wrap (wrapU32 (wrapU32 (b.toNat - a.toNat) - gap))

/-- `Store::reversed`: a source that has no `rev` reports the missing method. -/
def reversed (s : Store) (source : Value) : Except Error Reversed :=
  let missing : Except Error Reversed := do
    let e ← s.missingMethod source "rev"
    .error e
  match source with
  | .heap h => do
      match ← s.payload h with
      | .vectorIterator iter => do
          match ← s.payload iter.handle with
          | .list _ values => .ok (.list iter.handle iter.index (values.items.length - iter.index))
          | _ => missing
      | .optionIterator payload => .ok (.option payload)
      | .rangeIterator next finish =>
          .ok (.signed next
            (if next.val < finish.val then some (.wrap ((finish.absDiff next).val - 1)) else none))
      | .valueRangeIterator next finish =>
          match next, finish with
          | .i64 a, .i64 b =>
              .ok (.signed a (if a.val < b.val then some (.wrap ((b.absDiff a).val - 1)) else none))
          | .u64 a, .u64 b =>
              .ok (.unsigned a
                (if a.val < b.val then some (.wrap ((U64.wrap (b.val - a.val)).val - 1)) else none))
          | .char a, .char b => .ok (.char a (charCount a b))
          | _, _ => .error (err .invalidCode)
      | .otherRangeIterator ⟨_, .range cursor⟩ =>
          match cursor.finish with
          | none => missing
          | some finish =>
              match cursor.next, finish with
              | .i64 a, .i64 b =>
                  .ok (.signed a
                    (if cursor.done = false ∧ a.val ≤ b.val then some (b.absDiff a) else none))
              | .u64 a, .u64 b =>
                  .ok (.unsigned a
                    (if cursor.done = false ∧ a.val ≤ b.val then some (.wrap (b.val - a.val))
                      else none))
              | .char a, .char b =>
                  .ok (.char a (if cursor.done = true ∨ a.toNat > b.toNat then .wrap 0
                    else .wrap ((charCount a b).val + 1)))
              | _, _ => .error (err .invalidCode)
      | _ => .error (err .invalidCode)
  | _ => .error (err .invalidCode)

/-! ## The terminals -/

/-- `rev_empty`: whether a reversed source has no element left. -/
def revEmpty (s : Store) (source : Value) : Except Error Bool := do
  match ← s.reversed source with
  | .list _ _ len => .ok (len = 0)
  | .option payload => .ok payload.isNone
  | .signed _ last | .unsigned _ last => .ok last.isNone
  | .char _ count => .ok (count.val = 0)

/-- `rev_last`: the offset of a reversed source's last element, or zero where it is empty. -/
def revLast (s : Store) (source : Value) : Except Error Nat := do
  let last ← match ← s.reversed source with
    | .list _ _ len => .ok (checkedSub len 1)
    | .option _ => .ok (some 0)
    | .signed _ last | .unsigned _ last => .ok (last.map U64.val)
    | .char _ count => .ok (checkedSub count.val 1)
  .ok (last.getD 0)

/-- `rev_at`: the element at an offset from the front of a reversed source, retained. -/
def revAt (source offset : Value) : M Value :=
  let invalid := err .invalidCode
  match offset with
  | .u64 offset => do
      match ← read (·.reversed source) with
      | .list root index len => do
          guardWith (offset.val < len) invalid
          getElement (.heap root) (index + offset.val)
      | .option payload => do
          let value ← ofExcept (okOr (payload.filter fun _ => offset.val = 0) invalid)
          retain value
          pure value
      | .signed first last => do
          guardWith (last.any fun last => offset.val ≤ last.val) invalid
          pure (.i64 (first.wrappingAdd offset))
      | .unsigned first last => do
          guardWith (last.any fun last => offset.val ≤ last.val) invalid
          pure (.u64 (.wrap (first.val + offset.val)))
      | .char first count => do
          guardWith (offset.val < count.val) invalid
          guardWith (offset.val < 2 ^ 32) invalid
          let code := wrapU32 (first.toNat + offset.val)
          let code := if first.toNat < 0xd800 ∧ 0xd800 ≤ code then wrapU32 (code + 0x800) else code
          let c ← ofExcept (okOr (charFromU32 code) invalid)
          pure (.char c)
  | _ => fail invalid

end Store

end Rnx
