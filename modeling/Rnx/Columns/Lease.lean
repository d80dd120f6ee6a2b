import Rnx.Lib.Packed
import Rnx.Lib.Outcome
import Rnx.Store.Value

/-!
# Borrowed columns

The data of `column/mod.rs` and `column/lease.rs`: bit ranges at any offset of a byte string, the
word reads and appends the packed traversals are built from, and the typed, chunked and nullable
columns.  A bit range and a column carry the checks of their constructors as fields.

An `i64` is its two's complement word and an `f64` its bit pattern, so the word views of the
numeric slices are the slices.
-/

namespace Rnx.Columns

open Packed

/-- A 64-bit word. -/
abbrev Word := BitVec 64

/-- `ColumnType`. -/
inductive ColumnType
  | i64 | f64 | bool
deriving DecidableEq, Repr

/-- `ColumnRefusal`. -/
inductive ColumnRefusal
  | unsupported | entryAuthority | type | bounds | memory | fuel | canceled | arithmetic
deriving DecidableEq, Repr

/-- `Fault`: the first failing row, and the pc within it. -/
structure Fault where
  row : Nat
  pc : Nat
deriving DecidableEq, Repr

/-- How an attempt ends early: an unwinding assertion, or a request to replay. -/
inductive Stop
  | panic
  | replay (reason : ColumnRefusal) (fault : Option Fault)
deriving DecidableEq, Repr

/-- A checked access: an `expect`, an index or a slice expression. -/
def expect {α : Type} : Option α → Except Stop α
  | some a => .ok a
  | none => .error .panic

@[simp] lemma expect_some {α : Type} (a : α) : expect (some a) = .ok a := rfl

/-! ## Bit ranges -/

/-- `BitSlice`, with the checks of `BitSlice::new`. -/
structure BitSlice where
  bytes : List (BitVec 8)
  offset : Nat
  len : Nat
  bounded : offset + len ≤ usizeMax
  stored : (offset + len + 7) / 8 ≤ bytes.length

namespace BitSlice

/-- `BitSlice::new`. -/
def new (bytes : List (BitVec 8)) (offset len : Nat) : Except ColumnRefusal BitSlice :=
  if hb : offset + len ≤ usizeMax then
    if hs : (offset + len + 7) / 8 ≤ bytes.length then .ok ⟨bytes, offset, len, hb, hs⟩
    else .error .bounds
  else .error .bounds

/-- The empty range. -/
def empty : BitSlice := ⟨[], 0, 0, by decide, by decide⟩

/-- `BitSlice::get`. -/
def get (s : BitSlice) (index : Nat) : Option Bool :=
  if s.len ≤ index then none else some (bitAt s.bytes (s.offset + index))

/-- `BitSlice::bytes_at`: a byte-aligned part of the range. -/
def bytesAt (s : BitSlice) (start len : Nat) : Option (List (BitVec 8)) :=
  let bit := s.offset + start
  if usizeMax < bit ∨ usizeMax < start + len then none
  else if s.len < start + len ∨ bit % 8 ≠ 0 ∨ len % 8 ≠ 0 then none
  else slice? s.bytes (bit / 8) (len / 8)

end BitSlice

/-- `low_mask`: the `len` lowest bits. -/
def lowMask (len : Nat) : Word := if len = 0 then 0 else BitVec.allOnes 64 >>> (64 - len)

namespace BitSlice

/-- The bytes that hold `len` bits from `start` on. -/
def covering (s : BitSlice) (start len : Nat) : Option (List (BitVec 8)) :=
  let bit := s.offset + start
  slice? s.bytes (bit / 8) ((bit + len + 7) / 8 - bit / 8)

/-- `BitSlice::word`: up to one word, without touching a byte beyond the range. -/
def word (s : BitSlice) (start len : Nat) : Option Word :=
  if ¬ (len ≤ 64 ∧ start ≤ s.len ∧ len ≤ s.len - start) then none
  else if len = 0 then some 0
  else do
    let shift := (s.offset + start) % 8
    let bytes ← s.covering start len
    let word := leWord (bytes.take 8) >>> shift
    let word := if bytes.length = 9 then
        word ||| (bytes.getD 8 0).setWidth 64 <<< (64 - shift)
      else word
    some (word &&& lowMask len)

/-- A word of the aligned copy loop of `read_words`. -/
def alignedWord (bytes : List (BitVec 8)) (i : Nat) : Word := leWord ((bytes.drop (8 * i)).take 8)

/-- A word of the shifting copy loop of `read_words`. -/
def shiftedWord (bytes : List (BitVec 8)) (shift i : Nat) : Word :=
  alignedWord bytes i >>> shift ||| (bytes.getD (8 * i + 8) 0).setWidth 64 <<< (64 - shift)

/-- `BitSlice::read_words`: a block of bits as words, the last one partial. -/
def readWords (s : BitSlice) (start len : Nat) : Option (List Word) :=
  if ¬ (start ≤ s.len ∧ len ≤ s.len - start) then none
  else do
    let full := len / 64
    let shift := (s.offset + start) % 8
    let bytes ← s.covering start len
    let words := (List.range full).map fun i =>
      if shift = 0 then alignedWord bytes i else shiftedWord bytes shift i
    if len % 64 = 0 then some words
    else do
      let last ← s.word (start + full * 64) (len % 64)
      some (words ++ [last])

end BitSlice

/-! ## Appending to a packed output -/

/-- `append_word`: append `len` bits to a zeroed output whose earlier bits are kept. -/
def appendWord (out : List (BitVec 8)) (start len : Nat) (word : Word) :
    Option (List (BitVec 8)) :=
  if 64 < len then none
  else if len = 0 then some out
  else if len = 64 ∧ start % 8 = 0 then splice? out (start / 8) (leBytes word)
  else do
    let shift := start % 8
    let bytes ← slice? out (start / 8) ((start + len + 7) / 8 - start / 8)
    let word := word &&& lowMask len
    let low := leBytes (word <<< shift)
    let first := bytes.getD 0 0 ||| low.getD 0 0
    let middle := (low.drop 1).take (min bytes.length 8 - 1)
    let last := if bytes.length = 9 then [(word >>> (64 - shift)).setWidth 8] else []
    splice? out (start / 8) (first :: middle ++ last)

/-- The carry loop of `append_words`: the stored bytes, and the carry left over. -/
def carryWords (shift : Nat) : List Word → Word → List (BitVec 8) × Word
  | [], carry => ([], carry)
  | word :: words, carry =>
      let rest := carryWords shift words (word >>> (64 - shift))
      (leBytes (word <<< shift ||| carry) ++ rest.1, rest.2)

/-- The whole words of `append_words`, which a non-aligned start shifts across bytes. -/
def appendFull (out : List (BitVec 8)) (start : Nat) (words : List Word) :
    Option (List (BitVec 8)) :=
  let shift := start % 8
  if shift = 0 then splice? out (start / 8) (words.flatMap leBytes)
  else do
    let bytes ← slice? out (start / 8) 1
    let stored := carryWords shift words ((bytes.getD 0 0).setWidth 64)
    splice? out (start / 8) (stored.1 ++ [stored.2.setWidth 8])

/-- `append_words`: append a block of bits given as words. -/
def appendWords (out : List (BitVec 8)) (start len : Nat) (words : List Word) :
    Option (List (BitVec 8)) :=
  if words.length ≠ (len + 63) / 64 then none
  else if len = 0 then some out
  else do
    let full := len / 64
    let out ← appendFull out start (words.take full)
    if len % 64 = 0 then some out
    else appendWord out (start + full * 64) (len % 64) (words.getD full 0)

/-! ## Chunks and columns -/

/-- `ColumnSlice`: the physical values of a chunk. -/
inductive ColumnSlice
  | i64 (values : List Word)
  | f64 (values : List Word)
  | bool (values : BitSlice)

namespace ColumnSlice

/-- `ColumnSlice::len`. -/
def len : ColumnSlice → Nat
  | .i64 v => v.length
  | .f64 v => v.length
  | .bool v => v.len

/-- `ColumnSlice::column_type`. -/
def columnType : ColumnSlice → ColumnType
  | .i64 _ => .i64
  | .f64 _ => .f64
  | .bool _ => .bool

end ColumnSlice

/-- `ColumnChunk`: values, and a validity mask of the same length. -/
structure ColumnChunk where
  values : ColumnSlice
  validity : Option BitSlice
  agree : ∀ mask ∈ validity, mask.len = values.len

/-- `ColumnChunk::new`. -/
def ColumnChunk.new (values : ColumnSlice) (validity : Option BitSlice) :
    Except ColumnRefusal ColumnChunk :=
  if h : ∀ mask ∈ validity, mask.len = values.len then .ok ⟨values, validity, h⟩
  else .error .bounds

/-- The loop of `Column::new`: the total length, if every chunk has the type. -/
def measure (ty : ColumnType) : List ColumnChunk → Nat → Except ColumnRefusal Nat
  | [], len => .ok len
  | chunk :: chunks, len =>
      if chunk.values.columnType ≠ ty then .error .type
      else
        match checkedAdd len chunk.values.len with
        | none => .error .bounds
        | some len => measure ty chunks len

/-- `Column`, with the outcome of the loop of `Column::new`. -/
structure Column where
  chunks : List ColumnChunk
  ty : ColumnType
  len : Nat
  measured : measure ty chunks 0 = .ok len

/-- `Column::new`. -/
def Column.new (ty : ColumnType) (chunks : List ColumnChunk) : Except ColumnRefusal Column :=
  match h : measure ty chunks 0 with
  | .ok len => .ok ⟨chunks, ty, len, h⟩
  | .error e => .error e

end Rnx.Columns
