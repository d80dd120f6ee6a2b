import Rnx.Region.Types
import Rnx.Store.Native

/-!
# Region entry and exit commit

The glue between the executor and a region runner (`region/commit.rs`).  An entry unboxes the
region's slots, lets the runner fill in the cells and the record, validates the whole record
against the static exit table, and only then applies it.  Nothing the runner reports is trusted.
-/

namespace Rnx

open ErrState (get update fail read)

/-- The cell of a boolean. -/
def I64.ofBool (b : Bool) : I64 := if b then ⟨1, by decide, by decide⟩ else ⟨0, by decide, by decide⟩

/-- The integer zero. -/
def I64.zero : I64 := ⟨0, by decide, by decide⟩

namespace Region

/-! ## Outcomes -/

/-- Why an entry fell back to the interpreter. -/
inductive Refused
  | cancel
  | store
  | tag (slot : Nat)
  | window
  | invalidExit
  | iter (slot : Nat)
  | room
deriving DecidableEq

/-- The frames and the slots the executor could still push. -/
structure Room where
  frames : Nat
  slots : Nat

/-- The committed outcome: resume at `pc` with `fuel`. -/
structure Exited where
  status : Status
  pc : Nat
  fuel : Nat
deriving DecidableEq

/-- The iterator as the entry read it. -/
structure IterEntry where
  value : Value
  next : I64
  finish : I64
deriving DecidableEq

/-- What an entry borrows exclusively: the slots of the current frame and the store. -/
structure Scene where
  window : List Value
  store : Store

/-- Code that runs a region: arbitrary, but for the length of the buffer it is lent. -/
structure Runner where
  run : Region → List I64 → ExitRecord → List I64 × ExitRecord × Nat
  length : ∀ r cells record, (run r cells record).1.length = cells.length

/-! ## Entry -/

/-- The cell of a slot that passes its entry check. -/
def unboxCell : EntryClass → Value → Option I64
  | .guard .i64, .i64 v => some v
  | .guard .bool, .bool b => some (.ofBool b)
  | .scalar, v => if Store.isSlotScalar v then some .zero else none
  | _, _ => none

/-- The cells of the touched slots. -/
def unboxSlots (window : List Value) : List (Nat × EntryClass) → Except Refused (List I64)
  | [] => .ok []
  | (slot, cls) :: rest => do
      let value ← okOr window[slot]? .window
      let cell ← okOr (unboxCell cls value) (.tag slot)
      let cells ← unboxSlots window rest
      .ok (cell :: cells)

/-- The position and the end of the header's iterator: a cursor into a vector, or a range. -/
def iterState (vector : Bool) (s : Store) (v : Value) : Option (I64 × I64) :=
  if vector then
    (s.vectorIteratorForNative v).bind fun st =>
      (I64.ofInt? st.index).bind fun i => (I64.ofInt? st.len).map fun n => (i, n)
  else s.rangeIteratorForNative v

/-- The iterator of the region, if it has one. -/
def unboxIter (vector : Bool) (r : Region) (window : List Value) (s : Store) :
    Except Refused (Option IterEntry) :=
  match r.iter with
  | none => .ok none
  | some spec => do
      let value ← okOr window[spec.slot]? .window
      let state ← okOr (iterState vector s value) (.iter spec.slot)
      .ok (some ⟨value, state.1, state.2⟩)

/-- What an entry hands to the runner. -/
structure Entered where
  fuel : U64
  iter : Option IterEntry
  cells : List I64

/-- `unbox_mode`: every entry check, then the unboxed buffer. -/
def unboxMode (vector : Bool) (r : Region) (window : List Value) (s : Store)
    (cancelPending : Bool) (fuel : Nat) (room : Room) : Except Refused Entered := do
  ensure (cancelPending = false) .cancel
  ensure s.scalarReleaseIsNoop .store
  ensure (r.slots.length ≤ maxRegionSlots ∧ r.cells ≤ maxRegionCells ∧
    r.entry.length = r.slots.length) .window
  ensure (¬ (0 < r.calleeSlots ∧ (room.frames < 1 ∨ room.slots < r.calleeSlots))) .room
  let entryFuel ← okOr (U64.ofNat? fuel) .window
  let cells ← unboxSlots window (r.slots.zip r.entry)
  let iter ← unboxIter vector r window s
  .ok ⟨entryFuel, iter, cells ++ iter.elim [] fun i => [i.next, i.finish]⟩

/-! ## Validation -/

/-- The written mask names only slots the exit may write, and all it must. -/
def writtenOk (exit : Exit) (record : ExitRecord) : Bool :=
  record.written &&& ~~~(exit.definite ||| exit.maybe) == 0 && exit.definite &&& ~~~record.written == 0

/-- One bit for each of the `n` touched slots. -/
def allMask (n : Nat) : Mask := if n = 64 then BitVec.allOnes 64 else (1 <<< n) - 1

/-- The exit's tag masks are disjoint and name touched slots only. -/
def staticsOk (exit : Exit) (all : Mask) : Bool :=
  exit.units &&& exit.bools == 0 && (exit.units ||| exit.bools) &&& exit.dynamic == 0 &&
    (exit.units ||| exit.bools ||| exit.dynamic) &&& ~~~all == 0

/-- The reported tags are disjoint, tracked and written. -/
def masksOk (tracked : Mask) (record : ExitRecord) : Bool :=
  record.bools &&& record.units == 0 && (record.bools ||| record.units) &&& ~~~tracked == 0 &&
    (record.bools ||| record.units) &&& ~~~record.written == 0

/-- The written slots whose tag depends on the path taken. -/
def dynamicOf (exit : Exit) (record : ExitRecord) : Mask := record.written &&& exit.dynamic

/-- The written slots that hold a `Bool`. -/
def boolsOf (exit : Exit) (record : ExitRecord) : Mask :=
  (record.bools &&& dynamicOf exit record) ||| (exit.bools &&& record.written &&& ~~~exit.dynamic)

/-- The written slots that hold a `Unit`. -/
def unitsOf (exit : Exit) (record : ExitRecord) : Mask :=
  (record.units &&& dynamicOf exit record) ||| (exit.units &&& record.written &&& ~~~exit.dynamic)

/-- A tracked slot that is static at this exit was reported with its static tag. -/
def agreeOk (tracked : Mask) (exit : Exit) (record : ExitRecord) : Bool :=
  let agreed := record.written &&& tracked &&& ~~~exit.dynamic
  record.bools &&& agreed == exit.bools &&& agreed && record.units &&& agreed == exit.units &&& agreed

/-- The bits of a mask in the order a scan by trailing zeros visits them. -/
def bits (m : Mask) : List Nat := (List.range 64).filter m.getLsbD

/-- `canonical_payloads`: a cell tagged `Bool` is 0 or 1, one tagged `Unit` is 0. -/
def canonicalPayloads (buf : List I64) (bools units all : Mask) : Bool :=
  (bits ((bools ||| units) &&& all)).all fun l =>
    match buf[l]? with
    | none => false
    | some value => value.val == 0 || (value.val == 1 && bools.getLsbD l)

/-- The fuel a record reports, against the exit it names. -/
def fuelOk (entryFuel : U64) (exit : Exit) (record : ExitRecord) : Bool :=
  decide (record.fuel.val ≤ entryFuel.val) &&
    match exit.status, exit.replay with
    | .fuel, none => record.fuel.val == 0
    | .retry, none => !exit.restore || decide (1 ≤ record.fuel.val)
    | .continue, none => true
    | .replay, some .calleeFuel => record.fuel.val == 0
    | .replay, some .calleeFault => decide (1 ≤ record.fuel.val)
    | _, _ => false

/-- A replay is never restored and never an iterator end. -/
def replayOk (exit : Exit) : Bool :=
  exit.status != .replay || (!exit.restore && !exit.iterDone)

/-- Only a `Continue` of a region with an iterator ends it. -/
def iterDoneOk (exit : Exit) (iter : Option IterEntry) : Bool :=
  !exit.iterDone || (exit.status == .continue && iter.isSome)

/-- The record against the static exit table. -/
def recordOk (r : Region) (entryFuel : U64) (iter : Option IterEntry) (buf : List I64)
    (exit : Exit) (record : ExitRecord) (returned : Nat) : Bool :=
  returned == record.status && Status.fromU32 record.status == some exit.status &&
    record.pc == exit.pc && record.reserved == 0 && writtenOk exit record &&
    staticsOk exit (allMask r.slots.length) && masksOk r.tracked record &&
    agreeOk r.tracked exit record &&
    canonicalPayloads buf (boolsOf exit record) (unitsOf exit record) (allMask r.slots.length) &&
    fuelOk entryFuel exit record && replayOk exit && iterDoneOk exit iter

/-- Every written slot holds a value whose release is a no-op. -/
def oldScalars (window : List Value) (written : Mask) : List Nat → Nat → Bool
  | [], _ => true
  | slot :: rest, l =>
      (!written.getLsbD l || (window[slot]?).elim false Store.isSlotScalar) &&
        oldScalars window written rest (l + 1)

/-- `iter_progress_ok`: the iterator never moves back, and no further than the fuel consumed. -/
def iterProgressOk (entryNext next : I64) (entryFuel recordFuel : U64) : Bool :=
  decide (0 ≤ next.val - entryNext.val) && decide (recordFuel.val ≤ entryFuel.val) &&
    decide (next.val - entryNext.val ≤ ((entryFuel.val - recordFuel.val : Nat) : Int))

/-- The iterator commit a validation grants. -/
structure IterCommit where
  value : Value
  expect : I64 × I64
  new : I64
deriving DecidableEq

/-- The iterator still stands where the entry read it, and may move to `next`. -/
def iterOk (vector : Bool) (window : List Value) (s : Store) (spec : IterSpec) (entry : IterEntry)
    (exit : Exit) (next finish : I64) (entryFuel recordFuel : U64) : Bool :=
  window[spec.slot]? == some entry.value &&
    iterState vector s entry.value == some (entry.next, entry.finish) && finish == entry.finish &&
    Store.rangeNextReachable entry.next entry.finish next &&
    (!exit.iterDone || next.val == max entry.next.val entry.finish.val) &&
    iterProgressOk entry.next next entryFuel recordFuel

/-- The iterator of the record. -/
def validateIter (vector : Bool) (r : Region) (window : List Value) (s : Store) (entryFuel : U64)
    (iter : Option IterEntry) (buf : List I64) (exit : Exit) (record : ExitRecord) :
    Except Refused (Option IterCommit) :=
  match r.iter, iter with
  | some spec, some entry => do
      let next ← okOr buf[r.slots.length]? .invalidExit
      let finish ← okOr buf[r.slots.length + 1]? .invalidExit
      ensure (iterOk vector window s spec entry exit next finish entryFuel record.fuel) .invalidExit
      .ok (some ⟨entry.value, (entry.next, entry.finish), next⟩)
  | none, none => .ok none
  | _, _ => .error .invalidExit

/-- What `apply` writes, as the validation established it.  The source also compares the addresses
of the window and of the store with those it validated: here they are the same scene. -/
structure Plan where
  region : Region
  buf : List I64
  written : Mask
  bools : Mask
  units : Mask
  iter : Option IterCommit
  exited : Exited

/-- The plan of a validated record. -/
def planOf (r : Region) (buf : List I64) (record : ExitRecord) (exit : Exit)
    (commit : Option IterCommit) : Plan :=
  { region := r
    buf := buf
    written := record.written
    bools := boolsOf exit record
    units := unitsOf exit record
    iter := commit
    exited := ⟨exit.status, exit.pc, record.fuel.val⟩ }

/-- `validate_mode`: reads the record, the buffer, the window and the store, and writes nothing. -/
def validateMode (vector : Bool) (r : Region) (window : List Value) (s : Store) (entryFuel : U64)
    (iter : Option IterEntry) (buf : List I64) (record : ExitRecord) (returned : Nat) :
    Except Refused Plan := do
  let exit ← okOr r.exits[record.exit]? .invalidExit
  ensure (buf.length = r.cells ∧ r.slots.length ≤ maxRegionSlots ∧ buf.length ≤ maxRegionCells)
    .invalidExit
  ensure (r.iter.isSome = iter.isSome) .invalidExit
  ensure (recordOk r entryFuel iter buf exit record returned) .invalidExit
  ensure s.scalarReleaseIsNoop .invalidExit
  ensure (oldScalars window record.written r.slots 0) .invalidExit
  let commit ← validateIter vector r window s entryFuel iter buf exit record
  .ok (planOf r buf record exit commit)

/-! ## Commit -/

/-- The error of a write-back that fails after the iterator was stored. -/
def writeBackInvariant : Error := .new .invalidCode "native region write-back invariant"

/-- A computation over the scene. -/
abbrev C := ErrState Error Scene

/-- A store operation, on the scene's store. -/
def onStore {α : Type} (m : M α) : C α := fun sc =>
  ((m sc.store).1, { sc with store := (m sc.store).2 })

/-- The value written back to local `l`. -/
def Plan.value (p : Plan) (l : Nat) : Value :=
  if p.units.getLsbD l then .unit
  else if p.bools.getLsbD l then .bool ((p.buf[l]?.getD .zero).val != 0)
  else .i64 (p.buf[l]?.getD .zero)

/-- Replace one slot and release what it held.  A slot outside the window would panic: both
failures are counted as an error. -/
def writeSlot (slot : Nat) (value : Value) : C Unit := do
  let old ← read fun sc => okOr sc.window[slot]? writeBackInvariant
  update fun sc => { sc with window := sc.window.set slot value }
  match ← ErrState.attempt (onStore (Store.releaseSlot old)) with
  | .ok () => pure ()
  | .error _ => fail writeBackInvariant

/-- Write back the validated slots, from local `l` on. -/
def writeBack (p : Plan) : List Nat → Nat → C Unit
  | [], _ => pure ()
  | slot :: rest, l => do
      (if p.written.getLsbD l then writeSlot slot (p.value l) else pure ())
      writeBack p rest (l + 1)

/-- The only step that can still refuse: the iterator's position. -/
def commitNext (c : Option IterCommit) : C Bool :=
  match c with
  | some c => onStore (Store.commitRangeNextForNative c.value c.expect c.new)
  | none => pure true

/-- `apply`: the iterator's position, then exactly the written slots. -/
def apply (p : Plan) : C (Except Refused Exited) := do
  if ← commitNext p.iter then
    writeBack p p.region.slots 0
    pure (.ok p.exited)
  else
    pure (.error .invalidExit)

/-- The validation of a run, and its commit. -/
def settle (r : Region) (entered : Entered) (ran : List I64 × ExitRecord × Nat) :
    C (Except Refused Exited) := do
  let sc ← get
  match validateMode false r sc.window sc.store entered.fuel entered.iter ran.1 ran.2.1 ran.2.2 with
  | .ok plan => apply plan
  | .error refused => pure (.error refused)

/-- `commit::enter`: enter the region over the window. -/
def enter (r : Region) (cancelPending : Bool) (fuel : Nat) (room : Room) (runner : Runner) :
    C (Except Refused Exited) := do
  let sc ← get
  match unboxMode false r sc.window sc.store cancelPending fuel room with
  | .ok entered => settle r entered (runner.run r entered.cells (.new entered.fuel))
  | .error refused => pure (.error refused)

end Region

end Rnx
