import Rnx.Store.Admission

/-!
# Release

Giving a reference up.  A last release retires the entry and queues its children; the queue is
drained iteratively.  No step allocates: the room was reserved when the edges were admitted.
-/

namespace Rnx

open ErrState (get update fail read attempt ofExcept guardWith)

namespace Store

/-- `Store::children_room`: the queue can take every child of the payload. -/
def childrenRoom (s : Store) (p : Payload) : Except Error Unit :=
  if p.edges > s.edges ∨ p.edges > s.workCap - s.work.length then .error (err .invalidCode)
  else .ok ()

/-- Give the elements a guard holds back to the vector it holds them for. -/
def sortRestore (st : SortState) : M SortState := do
  let e ← read (·.entry st.parent)
  guardWith (e.readers = exclusiveReaders ∧ e.payload = .moved .vec) (err .invalidCode)
  update (·.modify st.parent.slot fun e =>
    { e with payload := .list .vec st.values, readers := 0 })
  pure { st with values := .empty, active := false }

/-- End a shared lease. -/
def endLease (h : Handle) : M Unit := do
  let e ← read (·.entry h)
  guardWith (1 ≤ e.readers) (err .invalidHandle)
  update (·.modify h.slot fun e => { e with readers := e.readers - 1 })

/-- Queue a child for release; scalars own nothing. -/
def queue (vs : List Value) : M Unit :=
  update (fun s => { s with work := (vs.filter Value.isHeap).reverse ++ s.work })

/-- What has to happen before a boxed payload's edges are counted off: a guard gives its elements
back, a boxed iterator ends its lease, reporting a malformed one without stopping. -/
def prepareBoxedDetach (p : Payload) : M (Payload × Option Error) :=
  match p with
  | .sortGuard st =>
      if st.active then do
        let st ← sortRestore st
        pure (.sortGuard st, none)
      else
        pure (p, none)
  | .otherRangeIterator _ =>
      match p.lease with
      | some h => do
          match ← attempt (endLease h) with
          | .ok () => pure (p, none)
          | .error e => pure (p, some e)
      | none => pure (p, none)
  | p => pure (p, none)

/-- End the lease of a vector iterator, after an earlier failure. -/
def detachVectorLease (p : Payload) (failure : Option Error) : M (Option Error) :=
  match p with
  | .vectorIterator iter => do
      match ← attempt (endLease iter.handle) with
      | .ok () => pure failure
      | .error e => pure (some e)
  | _ => pure failure

/-- `Store::enqueue_children`: the detached payload's edges become queued releases.  A malformed
lease is reported only after every child is queued. -/
def enqueueChildren (p : Payload) : M Unit := do
  let (p, failure) ← prepareBoxedDetach p
  let s ← get
  let edges ← ofExcept (okOr (checkedSub s.edges p.edges) (err .invalidCode))
  setEdges edges
  let failure ← detachVectorLease p failure
  queue p.children
  match failure with
  | none => pure ()
  | some e => fail e

/-- The link checks that precede a retirement: both neighbours, or the ends, point back. -/
def linksAgree (s : Store) (i : Nat) (e : Entry) : Bool :=
  (match e.previous with
    | some j => (s.cell j).any (fun p => p.2.next = some i)
    | none => s.first = some i) &&
  (match e.next with
    | some j => (s.cell j).any (fun p => p.2.previous = some i)
    | none => s.last = some i)

/-- Take an entry with the links of `e` out of the allocation order. -/
def unlink (s : Store) (e : Entry) : Store :=
  (s.relinkNext e.previous e.next).relinkPrevious e.next e.previous

/-- Empty slot `i`; its generation moves on, unless it was the last one, and then the slot is
retired for good. -/
def vacate (s : Store) (i : Nat) : Store :=
  match s.slots[i]? with
  | none => s
  | some sl =>
      if sl.generation < u32Max then
        { s with
          slots := s.slots.set i ⟨sl.generation + 1, none⟩
          free := i :: s.free }
      else
        { s with slots := s.slots.set i ⟨sl.generation, none⟩ }

/-- Give up one reference to `h`.  Every check precedes the first change of a retirement. -/
def releaseOne (h : Handle) : M Unit := do
  let e ← read (·.entry h)
  guardWith (1 ≤ e.strong) (err .invalidHandle)
  if e.strong ≠ 1 then
    update (·.modify h.slot fun e => { e with strong := e.strong - 1 })
  else do
    guardWith (e.readers = 0) (err .accessConflict)
    let s ← get
    guardWith (s.linksAgree h.slot e) (err .invalidHandle)
    guardWith (e.chargedBytes ≤ s.bytes) (err .invalidCode)
    guardWith (1 ≤ s.live) (err .invalidCode)
    guardWith (¬ (h.generation < u32Max ∧ s.free.length = s.freeCap)) (err .invalidCode)
    ofExcept (s.childrenRoom e.payload)
    update (fun s => (s.vacate h.slot).unlink e)
    update (fun s => { s with bytes := s.bytes - e.chargedBytes, live := s.live - 1 })
    enqueueChildren e.payload

/-- The first failure of two. -/
def firstError (failure : Option Error) (r : Except Error Unit) : Option Error :=
  match failure, r with
  | none, .error e => some e
  | f, _ => f

/-- Release everything that is queued, keeping the first error.  The fuel bounds the source's
`while` loop. -/
def drainLoop : Nat → Option Error → M Unit
  | 0, failure => ofExcept (failure.elim (.ok ()) .error)
  | fuel + 1, failure => do
      let s ← get
      match s.work with
      | [] => ofExcept (failure.elim (.ok ()) .error)
      | v :: rest => do
          update (fun s => { s with work := rest })
          match v with
          | .heap h => do
              let r ← attempt (releaseOne h)
              drainLoop fuel (firstError failure r)
          | _ => drainLoop fuel failure

/-- The releases a drain can take: one per reference, and one per queued value. -/
def drainFuel (s : Store) : Nat := s.total (fun _ e => e.strong) + s.work.length + 1

/-- `Store::drain_work`. -/
def drainWork (failure : Option Error) : M Unit := do
  let s ← get
  drainLoop s.drainFuel failure

/-- `Store::release`: the root first, then its children, then earlier work. -/
def release (v : Value) : M Unit := do
  ensureOpen
  match v with
  | .heap h => do
      let s ← get
      if s.work.length = s.workCap then
        drainWork (some (err .invalidCode))
      else do
        let r ← attempt (releaseOne h)
        drainWork (firstError none r)
  | _ => drainWork none

end Store

end Rnx
