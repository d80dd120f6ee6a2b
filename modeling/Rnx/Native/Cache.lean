import Mathlib.Algebra.BigOperators.Group.List.Basic
import Mathlib.Algebra.Group.Nat.Defs
import Rnx.Lib.ErrState
import Rnx.Store.Value

/-!
# The cache of native programs

`region/cache.rs`: the programs of one thread, keyed by code.  An entry is charged for the pages
its code is mapped in and for the metadata kept with it, while it is built, while an invocation
has it checked out, and while it rests in the cache; the cache keeps the totals of both.

Subtractions of the accounting are checked: an underflow is a fault of the model, so that its
absence can be proved.  The sizes of the Rust types are parameters.
-/

namespace Rnx

namespace Native

/-- `usize::saturating_add`. -/
@[irreducible] def saturatingAdd (a b : Nat) : Nat := min (a + b) usizeMax

/-- `PAGE_BYTES`. -/
def pageBytes : Nat := 4096

/-- `MODULE_RESERVE_BYTES`. -/
def moduleReserveBytes : Nat := 4096

/-- `ISA_RESERVE_BYTES`. -/
def isaReserveBytes : Nat := 64 * 1024

/-- `page_ceil`. -/
def pageCeil (bytes : Nat) : Nat := max ((bytes + pageBytes - 1) / pageBytes) 1 * pageBytes

/-- What `size_of` gives for the types that are charged. -/
structure Sizes where
  entryClass : Nat
  exit : Nat
  ready : Nat
  recursiveReady : Nat
  methodReady : Nat
  vectorVariants : Nat
  programDescriptor : Nat
  entry : Nat
deriving DecidableEq, Repr

/-! ## Limits -/

/-- `thread_reserve_bytes`. -/
def threadReserveBytes (z : Sizes) (cachedPrograms : Nat) : Nat :=
  saturatingAdd (min (cachedPrograms * z.entry) usizeMax) isaReserveBytes

/-- `Limits`.  The metadata a thread is charged before any entry is within its bound. -/
structure Limits (z : Sizes) where
  cachedPrograms : Nat
  threadMappedBytes : Nat
  threadMetadataBytes : Nat
  programMetadataBytes : Nat
  programRegions : Nat
  programCompiles : Nat
  programCodeBytes : Nat
  programAnalyzedFunctions : Nat
  programAttemptedFunctions : Nat
  functionLen : Nat
  functionCandidateHeaders : Nat
  programAnalysisWork : Nat
  reserve_fits : threadReserveBytes z cachedPrograms ≤ threadMetadataBytes

/-- `Limits::PRODUCTION`, of entries that leave room for the reserve. -/
def production (z : Sizes) (h : threadReserveBytes z 16 ≤ 4 * 1024 * 1024) : Limits z :=
  { cachedPrograms := 16
    threadMappedBytes := 4 * 1024 * 1024
    threadMetadataBytes := 4 * 1024 * 1024
    programMetadataBytes := 1024 * 1024
    programRegions := 64
    programCompiles := 128
    programCodeBytes := 1024 * 1024
    programAnalyzedFunctions := 1024
    programAttemptedFunctions := 4096
    functionLen := 65536
    functionCandidateHeaders := 256
    programAnalysisWork := 16777216
    reserve_fits := h }

/-! ## Programs and their charges -/

/-- `DivisionKind`. -/
inductive DivisionKind
  | const0
  | constNeg1
  | runtime
deriving DecidableEq, Repr

/-- `Region`, as loading reads it: the capacities of its retained vectors, its cells, whether it
traverses a collection and appends to it, whether it iterates, and its division. -/
structure Region where
  slots : Nat
  entry : Nat
  exits : Nat
  cells : Nat
  collection : Option Bool
  iter : Bool
  division : Option DivisionKind
deriving DecidableEq, Repr

/-- `region_metadata`: the retained vectors, the region itself and its rows of the two lookup
tables. -/
def regionMetadata (z : Sizes) (r : Region) : Nat :=
  r.slots * 4 + r.entry * z.entryClass + r.exits * z.exit + z.ready + 8 + 12

/-- A loaded region: `Ready` without its vector variants. -/
structure Loaded where
  region : Region
  codeBytes : Nat
  reservation : Nat
deriving DecidableEq, Repr

/-- `VectorVariants`. -/
structure VectorVariants where
  integer : Option Loaded
  boolean : Option Loaded
deriving DecidableEq, Repr

/-- `Ready`. -/
structure Ready where
  vector : Option VectorVariants
  native : Loaded
deriving DecidableEq, Repr

/-- `Shape` and `Methods`, as loading reads them: the function, and the metadata retained. -/
structure Shape where
  function : Nat
  metadata : Nat
deriving DecidableEq, Repr

/-- `RecursiveReady` and `MethodReady`. -/
structure Activation where
  shape : Shape
  codeBytes : Nat
  reservation : Nat
deriving DecidableEq, Repr

/-- Loaded activations of one kind, and the dense lookup from functions to them. -/
structure Activations where
  ready : List Activation
  lookup : List Nat
deriving DecidableEq, Repr

/-- The two kinds of activations. -/
inductive Which
  | scalar
  | methods
deriving DecidableEq, Repr

/-- `size_of::<RecursiveReady>()` or `size_of::<MethodReady>()`. -/
def Which.size (z : Sizes) : Which → Nat
  | .scalar => z.recursiveReady
  | .methods => z.methodReady

/-- `NativeSummary`, without times and analysis peaks. -/
structure NativeSummary where
  functions : Nat := 0
  analysedFunctions : Nat := 0
  skippedLength : Nat := 0
  skippedHeaders : Nat := 0
  skippedBudget : Nat := 0
  analysisErrors : Nat := 0
  candidates : Nat := 0
  regions : Nat := 0
  loaded : Nat := 0
  divisionRuntime : Nat := 0
  divisionConst0 : Nat := 0
  divisionConstNeg1 : Nat := 0
  size : Nat := 0
  codegen : Nat := 0
  panicked : Nat := 0
  auditOther : Nat := 0
  other : Nat := 0
  loadRefused : Nat := 0
  metadata : Nat := 0
  regionCap : Nat := 0
  compileCap : Nat := 0
  threadBound : Nat := 0
  environment : Nat := 0
  attemptedFunctions : Nat := 0
  skippedAfterCaps : Nat := 0
  transient : Nat := 0
  steps : Nat := 0
  processBound : Nat := 0
  pageSize : Nat := 0
  loadPanicked : Nat := 0
  reservedBytes : Nat := 0
  codeBytes : Nat := 0
  mappedBytes : Nat := 0
  metadataBytes : Nat := 0
deriving DecidableEq, Repr

/-- `ProgramRegions`. -/
structure ProgramRegions where
  code : Nat
  ready : List Ready
  summary : NativeSummary
deriving DecidableEq, Repr

/-- `ProgramDescriptor`. -/
inductive Program
  | loops (regions : ProgramRegions)
  | recursion (regions : ProgramRegions) (recursive : Activations)
  | methods (regions : ProgramRegions) (scalar : Activations) (methods : Activations)
deriving DecidableEq, Repr

/-- `ProgramDescriptor::regions`. -/
def Program.regions : Program → ProgramRegions
  | .loops r | .recursion r _ | .methods r _ _ => r

/-- Bytes charged: of mapped pages, and of metadata. -/
structure Charge where
  mapped : Nat
  metadata : Nat
deriving DecidableEq, Repr

namespace Charge

instance : Zero Charge := ⟨⟨0, 0⟩⟩

instance : Add Charge := ⟨fun a b => ⟨a.mapped + b.mapped, a.metadata + b.metadata⟩⟩

@[simp] lemma zero_mapped : (0 : Charge).mapped = 0 := rfl

@[simp] lemma zero_metadata : (0 : Charge).metadata = 0 := rfl

@[simp] lemma add_mapped (a b : Charge) : (a + b).mapped = a.mapped + b.mapped := rfl

@[simp] lemma add_metadata (a b : Charge) : (a + b).metadata = a.metadata + b.metadata := rfl

@[ext] lemma ext {a b : Charge} (hmapped : a.mapped = b.mapped)
    (hmetadata : a.metadata = b.metadata) : a = b := by
  cases a
  cases b
  simp_all

instance : AddCommMonoid Charge where
  add_assoc a b c := by ext <;> simp [Nat.add_assoc]
  zero_add a := by ext <;> simp
  add_zero a := by ext <;> simp
  add_comm a b := by ext <;> simp [Nat.add_comm]
  nsmul := nsmulRec

end Charge

/-- What loading a region charges. -/
def Loaded.charge (z : Sizes) (n : Loaded) : Charge :=
  ⟨pageCeil n.codeBytes, regionMetadata z n.region + moduleReserveBytes⟩

/-- What the vector variants of a region are charged: their box, and each that is loaded. -/
def VectorVariants.charge (z : Sizes) (v : VectorVariants) : Charge :=
  ⟨0, z.vectorVariants⟩ + v.integer.elim 0 (Loaded.charge z) + v.boolean.elim 0 (Loaded.charge z)

/-- What a region of the program and its variants are charged. -/
def Ready.charge (z : Sizes) (r : Ready) : Charge :=
  r.native.charge z + r.vector.elim 0 (VectorVariants.charge z)

/-- What loading an activation charges, without the lookup table. -/
def Activation.charge (z : Sizes) (which : Which) (a : Activation) : Charge :=
  ⟨pageCeil a.codeBytes, a.shape.metadata + which.size z + moduleReserveBytes⟩

/-- What the activations of one kind and their lookup table are charged. -/
def Activations.charge (z : Sizes) (which : Which) (t : Activations) : Charge :=
  (t.ready.map (Activation.charge z which)).sum + ⟨0, t.lookup.length * 4⟩

/-- What a program is charged: its regions with their variants, its activations with their lookup
tables, and its descriptor. -/
def Program.charge (z : Sizes) : Program → Charge
  | .loops r => (r.ready.map (Ready.charge z)).sum + ⟨0, z.programDescriptor⟩
  | .recursion r recursive =>
    (r.ready.map (Ready.charge z)).sum + recursive.charge z .scalar + ⟨0, z.programDescriptor⟩
  | .methods r scalar object =>
    (r.ready.map (Ready.charge z)).sum + scalar.charge z .scalar + object.charge z .methods +
      ⟨0, z.programDescriptor⟩

/-! ## The cache -/

/-- `Resident`. -/
inductive Resident
  | building
  | checkedOut
  | ready (program : Program)
  | empty (summary : NativeSummary)
deriving DecidableEq, Repr

/-- `Entry`. -/
structure Entry where
  code : Nat
  lastUse : Nat
  mapped : Nat
  metadata : Nat
  resident : Resident
deriving DecidableEq, Repr

/-- `Cache`.  Whether the thread may load native code is part of each build. -/
structure Cache where
  entries : List Entry
  mapped : Nat
  metadata : Nat
  tick : Nat
deriving DecidableEq, Repr

/-- Why a step of the tier does not return: it unwinds, or its accounting underflows. -/
inductive Fault
  | panic
  | underflow
deriving DecidableEq, Repr

/-- A subtraction of the accounting. -/
def subtract (a b : Nat) : Except Fault Nat := if b ≤ a then .ok (a - b) else .error .underflow

/-- `Cache::position`. -/
def Cache.position (c : Cache) (code : Nat) : Option Nat :=
  c.entries.findIdx? fun e => e.code == code

/-- `Vec::swap_remove`. -/
def swapRemove (l : List Entry) (i : Nat) : List Entry :=
  match l.getLast? with
  | some last => (l.set i last).dropLast
  | none => []

/-- `Cache::remove`. -/
def Cache.remove (c : Cache) (index : Nat) : Except Fault (Cache × Option Entry) := do
  match c.entries[index]? with
  | none => .error .panic
  | some entry =>
    let mapped ← subtract c.mapped entry.mapped
    let metadata ← subtract c.metadata entry.metadata
    .ok ({ c with
      entries := swapRemove c.entries index, mapped := mapped, metadata := metadata }, entry)

/-- Whether an entry can be evicted: it is resident and not in flight. -/
def Entry.evictable (e : Entry) : Bool :=
  match e.resident with
  | .ready _ | .empty _ => true
  | .building | .checkedOut => false

/-- The first of the candidates with the least last use. -/
def leastUsed : List (Entry × Nat) → Option Nat
  | [] => none
  | first :: rest =>
    some (rest.foldl (fun best e => if e.1.lastUse < best.1.lastUse then e else best) first).2

/-- `Cache::evict_lru`: the entry removed, or none when every other entry is in flight. -/
def Cache.evictLru (c : Cache) (keep : Nat) : Except Fault (Cache × Option Entry) :=
  match leastUsed ((c.entries.zipIdx.filter fun e => e.1.code != keep).filter
      fun e => e.1.evictable) with
  | none => .ok (c, none)
  | some index => c.remove index

/-- Whether the thread's bounds admit more bytes. -/
def Cache.fits {z : Sizes} (limits : Limits z) (mapped metadata : Nat) (c : Cache) : Bool :=
  let base := threadReserveBytes z limits.cachedPrograms
  decide (c.mapped + mapped ≤ usizeMax ∧ c.mapped + mapped ≤ limits.threadMappedBytes ∧
    c.metadata + metadata + base ≤ usizeMax ∧
    c.metadata + metadata + base ≤ limits.threadMetadataBytes)

/-- The loop of `Cache::reserve`: evict until the bytes fit or nothing is left to evict.  Each
round takes an entry away, so their number is enough. -/
def Cache.makeRoom {z : Sizes} (limits : Limits z) (code mapped metadata : Nat) :
    Nat → Cache → Except Fault (Cache × Bool)
  | 0, c => .ok (c, c.fits limits mapped metadata)
  | rounds + 1, c =>
    if c.fits limits mapped metadata then .ok (c, true)
    else do
      match ← c.evictLru code with
      | (c, some _) => makeRoom limits code mapped metadata rounds c
      | (c, none) => .ok (c, false)

/-- `Cache::reserve`. -/
def Cache.reserve {z : Sizes} (limits : Limits z) (code mapped metadata : Nat) (c : Cache) :
    Except Fault (Cache × Bool) := do
  let (c, fits) ← c.makeRoom limits code mapped metadata c.entries.length
  if fits then
    match c.position code with
    | none => .ok (c, false)
    | some index =>
      .ok ({ c with
        entries := c.entries.modify index fun e =>
          { e with mapped := e.mapped + mapped, metadata := e.metadata + metadata }
        mapped := c.mapped + mapped
        metadata := c.metadata + metadata }, true)
  else .ok (c, false)

/-- `unreserve`. -/
def Cache.unreserve (code mapped metadata : Nat) (c : Cache) : Except Fault Cache :=
  match c.position code with
  | none => .ok c
  | some index =>
    match c.entries[index]? with
    | none => .error .panic
    | some e => do
      let entryMapped ← subtract e.mapped mapped
      let entryMetadata ← subtract e.metadata metadata
      let cacheMapped ← subtract c.mapped mapped
      let cacheMetadata ← subtract c.metadata metadata
      .ok { c with
        entries := c.entries.set index { e with mapped := entryMapped, metadata := entryMetadata }
        mapped := cacheMapped
        metadata := cacheMetadata }

/-- `put_back`. -/
def Cache.putBack (c : Cache) (program : Program) : Cache :=
  let c := { c with tick := c.tick + 1 }
  match c.position program.regions.code with
  | none => c
  | some index =>
    match c.entries[index]? with
    | some { resident := .checkedOut, .. } =>
      { c with entries := c.entries.modify index fun e =>
          { e with resident := .ready program, lastUse := c.tick } }
    | _ => c

/-- `evict`. -/
def Cache.evict (c : Cache) (code : Nat) : Except Fault (Cache × Bool) :=
  match c.position code with
  | none => .ok (c, false)
  | some index =>
    match c.entries[index]? with
    | none => .error .panic
    | some e =>
      if e.evictable then do
        let (c, _) ← c.remove index
        .ok (c, true)
      else .ok (c, false)

/-- `BuildGuard::drop`, of an armed guard. -/
def Cache.dropMarker (c : Cache) (code : Nat) : Except Fault Cache :=
  match c.position code with
  | none => .ok c
  | some index =>
    match c.entries[index]? with
    | some { resident := .building, .. } => do
      let (c, _) ← c.remove index
      .ok c
    | _ => .ok c

end Native

end Rnx
