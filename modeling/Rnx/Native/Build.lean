import Rnx.Native.Cache
import Rnx.Lib.Transition

/-!
# Building a program into the cache

The streamed build of `region/cache.rs`, with the activations of `cache/recursion.rs` and
`cache/methods.rs`: the regions and activations the analysis admits are compiled and loaded one by
one, each charged to the entry of the code before it is kept.

What the code contains, what the analysis admits, and how each compile, reservation, allocation and
load comes out is the `World` of one build.  A panic in a compile or a load is caught; a panic
anywhere else unwinds the build, which `World.panics` may ask for at every point named by a `Site`.
-/

namespace Rnx

namespace Native

/-! ## The surroundings of a build -/

/-- `Enabled`. -/
inductive Enabled
  | yes
  | environment
  | pageSize
deriving DecidableEq, Repr

/-- `Stop`. -/
inductive Stop
  | budget
  | error
deriving DecidableEq, Repr

/-- `RegionRefusal`, as far as the build tells its kinds apart. -/
inductive RegionRefusal
  | steps
  | other
deriving DecidableEq, Repr

/-- `Scalar`, of a vector variant. -/
inductive Scalar
  | i64
  | bool
deriving DecidableEq, Repr

/-- `NativeRefusal`, as it is classified. -/
inductive NativeRefusal
  | division
  | size
  | codegen
  | audit
  | other
deriving DecidableEq, Repr

/-- `Compiled`. -/
structure Compiled where
  bytes : Nat
  cells : Nat
deriving DecidableEq, Repr

/-- A step behind `catch_unwind`. -/
inductive Caught (α : Type)
  | done (a : α)
  | refused (refusal : NativeRefusal)
  | panicked
deriving DecidableEq, Repr

/-- A function of the code, as the gates of the build read it. -/
structure Function where
  len : Nat
  slots : Nat
  parameters : Nat
  callsItself : Bool
deriving DecidableEq, Repr

/-- Where a build allocates fallibly. -/
inductive Alloc
  | entry
  | descriptor
  | ready
  | activation
  | lookup
  | variants
deriving DecidableEq, Repr

/-- Where a build can unwind. -/
inductive Site
  | analysis
  | beforeCompile
  | beforeReserve
  | afterReserve
  | afterProcess
  | afterLoad
deriving DecidableEq, Repr

/-- What surrounds one build.  Steps after a compile are told apart by the number of compiles so
far, the vector variants of a header by their type. -/
structure World where
  enabled : Enabled
  functions : Nat
  function : Nat → Option Function
  scan : Nat → Except Stop (List Nat)
  recursion : Nat → Option Shape
  methods : (function allowance : Nat) → Option Shape × { left : Nat // left ≤ allowance }
  context : Nat → Except Stop Unit
  candidate : Nat → Nat → Except Stop (Except RegionRefusal Region)
  provenRange : Nat → Nat → Bool
  vector : Nat → Nat → Scalar → Except Stop (Except RegionRefusal Region)
  compile : Nat → Caught Compiled
  process : Nat → Bool
  load : Nat → Caught Unit
  alloc : Alloc → Nat → Bool
  panics : Site → Nat → Bool

/-! ## The state of a build -/

/-- `Build`.  Whether the descriptor is reserved stands for its capacity of one. -/
structure Build where
  id : Nat
  summary : NativeSummary
  ready : List Ready
  programBytes : Nat
  programMetadata : Nat
  compiles : Nat
  scalar : Activations
  methods : Activations
  descriptor : Bool
  descriptorAttempted : Bool
  functionLimit : Nat
deriving DecidableEq, Repr

/-- A build in progress and the cache of its thread. -/
structure Work where
  cache : Cache
  build : Build
deriving DecidableEq, Repr

/-- The steps of a build, which may unwind. -/
abbrev M := ErrState Fault Work

/-- Unwind where the world asks for it. -/
def strike (w : World) (site : Site) : M Unit := fun s =>
  if w.panics site s.build.compiles then (.error .panic, s) else (.ok (), s)

/-- Count in the summary. -/
def count (f : NativeSummary → NativeSummary) : M Unit :=
  ErrState.update fun s => { s with build := { s.build with summary := f s.build.summary } }

/-- `Cache::reserve` for the entry of the build. -/
def reserve {z : Sizes} (limits : Limits z) (mapped metadata : Nat) : M Bool := fun s =>
  match s.cache.reserve limits s.build.id mapped metadata with
  | .ok (cache, reserved) => (.ok reserved, { s with cache := cache })
  | .error fault => (.error fault, s)

/-- `unreserve` for the entry of the build. -/
def unreserve (mapped metadata : Nat) : M Unit := fun s =>
  match s.cache.unreserve s.build.id mapped metadata with
  | .ok cache => (.ok (), { s with cache := cache })
  | .error fault => (.error fault, s)

/-- A subtraction of the build's own counts. -/
def lessen (f : Build → Nat) (set : Nat → Build → Build) (n : Nat) : M Unit := fun s =>
  match subtract (f s.build) n with
  | .ok m => (.ok (), { s with build := set m s.build })
  | .error fault => (.error fault, s)

/-- `self.program_metadata`, written. -/
def setProgramMetadata (n : Nat) (b : Build) : Build := { b with programMetadata := n }

/-- `self.summary.metadata_bytes`. -/
def Build.metadataBytes (b : Build) : Nat := b.summary.metadataBytes

/-- `self.summary.metadata_bytes`, written. -/
def setMetadataBytes (n : Nat) (b : Build) : Build :=
  { b with summary := { b.summary with metadataBytes := n } }

/-- `Build::reserve_descriptor`. -/
def reserveDescriptor {z : Sizes} (limits : Limits z) (w : World) : M Bool := do
  let b := (← ErrState.get).build
  if b.descriptorAttempted then pure b.descriptor
  else do
    ErrState.update fun s => { s with build := { s.build with descriptorAttempted := true } }
    if limits.programMetadataBytes < saturatingAdd b.programMetadata z.programDescriptor then do
      count fun n => { n with metadata := n.metadata + 1 }
      pure false
    else if w.alloc .descriptor 0 then do
      strike w .beforeReserve
      if ← reserve limits 0 z.programDescriptor then do
        ErrState.update fun s =>
          { s with build := { s.build with
              descriptor := true
              programMetadata := s.build.programMetadata + z.programDescriptor
              summary := { s.build.summary with
                metadataBytes := s.build.summary.metadataBytes + z.programDescriptor } } }
        pure true
      else do
        count fun n => { n with threadBound := n.threadBound + 1 }
        pure false
    else do
      count fun n => { n with metadata := n.metadata + 1 }
      pure false

/-- `Build::capped`. -/
def capped {z : Sizes} (limits : Limits z) (w : World) : M Bool := do
  let b := (← ErrState.get).build
  if w.enabled ≠ .yes then pure false
  else if limits.programRegions ≤ b.summary.loaded then do
    count fun n => { n with regionCap := 1 }
    pure true
  else if limits.programCompiles ≤ b.compiles then do
    count fun n => { n with compileCap := 1 }
    pure true
  else pure false

/-- Whether the tier may load at all; a refusal is counted. -/
def mayLoad (w : World) : M Bool :=
  match w.enabled with
  | .yes => pure true
  | .environment => do
    count fun n => { n with environment := n.environment + 1 }
    pure false
  | .pageSize => do
    count fun n => { n with pageSize := n.pageSize + 1 }
    pure false

/-- A refused compile, counted by its kind. -/
def classify (region : Region) : NativeRefusal → NativeSummary → NativeSummary
  | .division, n =>
    match region.division with
    | some .const0 => { n with divisionConst0 := n.divisionConst0 + 1 }
    | some .constNeg1 => { n with divisionConstNeg1 := n.divisionConstNeg1 + 1 }
    | _ => { n with divisionRuntime := n.divisionRuntime + 1 }
  | .size, n => { n with size := n.size + 1 }
  | .codegen, n => { n with codegen := n.codegen + 1 }
  | .audit, n => { n with auditOther := n.auditOther + 1 }
  | .other, n => { n with other := n.other + 1 }

/-- The thread reservation, the process reservation and the load of a compiled artifact, with what
each exit undoes; `prepare` is what happens between the two last, and undoes nothing itself. -/
def chargeAndLoad {z : Sizes} (limits : Limits z) (w : World) (mapped metadata : Nat)
    (prepare : M Bool) : M Bool := do
  strike w .beforeReserve
  if ← reserve limits mapped metadata then do
    strike w .afterReserve
    let attempt := (← ErrState.get).build.compiles
    if w.process attempt then do
      strike w .afterProcess
      if ← prepare then
        match w.load attempt with
        | .done () => do
          strike w .afterLoad
          pure true
        | .refused _ => do
          unreserve mapped metadata
          count fun n => { n with loadRefused := n.loadRefused + 1 }
          pure false
        | .panicked => do
          unreserve mapped metadata
          count fun n => { n with loadPanicked := n.loadPanicked + 1 }
          pure false
      else do
        unreserve mapped metadata
        count fun n => { n with metadata := n.metadata + 1 }
        pure false
    else do
      unreserve mapped metadata
      count fun n => { n with processBound := n.processBound + 1 }
      pure false
  else do
    count fun n => { n with threadBound := n.threadBound + 1 }
    pure false

/-- What a loaded artifact adds to the counts of the build. -/
def recordLoaded (bytes mapped metadata : Nat) (b : Build) : Build :=
  { b with
    programBytes := b.programBytes + bytes
    programMetadata := b.programMetadata + metadata
    summary := { b.summary with
      loaded := b.summary.loaded + 1
      codeBytes := b.summary.codeBytes + bytes
      mappedBytes := b.summary.mappedBytes + mapped
      metadataBytes := b.summary.metadataBytes + (metadata - moduleReserveBytes)
      reservedBytes := b.summary.reservedBytes + moduleReserveBytes } }

/-! ## Regions -/

/-- The cells a compiled region must have. -/
def expectedCells (region : Region) : Nat :=
  region.cells + if region.collection = some true then 1 else 0

/-- `Build::load_ready`. -/
def loadReady {z : Sizes} (limits : Limits z) (w : World) (region : Region) : M (Option Loaded) := do
  if ← mayLoad w then
    if ← reserveDescriptor limits w then
      let metadata := saturatingAdd (regionMetadata z region) moduleReserveBytes
      let b := (← ErrState.get).build
      if (checkedAdd b.programMetadata metadata).all (limits.programMetadataBytes < ·) then do
        count fun n => { n with metadata := n.metadata + 1 }
        pure none
      else do
        strike w .beforeCompile
        ErrState.update fun s => { s with build := { s.build with compiles := s.build.compiles + 1 } }
        match w.compile (b.compiles + 1) with
        | .panicked => do
          count fun n => { n with panicked := n.panicked + 1 }
          pure none
        | .refused refusal => do
          count (classify region refusal)
          pure none
        | .done compiled =>
          if compiled.cells ≠ expectedCells region then do
            count fun n => { n with other := n.other + 1 }
            pure none
          else do
            let mapped := pageCeil compiled.bytes
            if ← chargeAndLoad limits w mapped metadata (pure true) then do
              ErrState.update fun s =>
                { s with build := recordLoaded compiled.bytes mapped metadata s.build }
              pure (some ⟨region, compiled.bytes, mapped⟩)
            else pure none
    else pure none
  else pure none

/-- `Build::load`. -/
def load {z : Sizes} (limits : Limits z) (w : World) (region : Region) : M Unit := do
  let b := (← ErrState.get).build
  if w.alloc .ready b.compiles then do
    match ← loadReady limits w region with
    | some native =>
      ErrState.update fun s =>
        { s with build := { s.build with ready := s.build.ready ++ [⟨none, native⟩] } }
    | none => pure ()
  else count fun n => { n with metadata := n.metadata + 1 }

/-- The variant of a header for one type: loaded or not, and whether the other type is tried. -/
def loadVariant {z : Sizes} (limits : Limits z) (w : World) (function header : Nat) (ty : Scalar) :
    M (Option Loaded × Bool) := do
  if ← capped limits w then pure (none, false)
  else do
    strike w .analysis
    match w.vector function header ty with
    | .ok (.ok region) => do
      count fun n => { n with regions := n.regions + 1 }
      pure (← loadReady limits w region, true)
    | .ok (.error .steps) => do
      count fun n => { n with steps := n.steps + 1 }
      pure (none, true)
    | .ok (.error .other) => pure (none, true)
    | .error .budget => do
      count fun n => { n with transient := n.transient + 1 }
      pure (none, false)
    | .error .error => do
      count fun n => { n with analysisErrors := n.analysisErrors + 1 }
      pure (none, false)

/-- The loop over the types goes on to the second, unless the first left it. -/
def loadSecond {z : Sizes} (limits : Limits z) (w : World) (function header : Nat) (more : Bool) :
    M (Option Loaded × Bool) :=
  if more then loadVariant limits w function header .bool else pure (none, false)

/-- `self.ready[index].vector = Some(variants)`. -/
def setVector (index : Nat) (variants : VectorVariants) (ready : List Ready) : List Ready :=
  ready.modify index fun r => { r with vector := some variants }

/-- `Build::vector_variants`. -/
def vectorVariants {z : Sizes} (limits : Limits z) (w : World) (function header index : Nat) :
    M Unit := do
  let bytes := z.vectorVariants
  let b := (← ErrState.get).build
  if limits.programMetadataBytes < saturatingAdd b.programMetadata bytes then
    count fun n => { n with metadata := n.metadata + 1 }
  else do
    strike w .beforeReserve
    if ← reserve limits 0 bytes then
      if w.alloc .variants b.compiles then do
        ErrState.update fun s =>
          { s with build := { s.build with
              programMetadata := s.build.programMetadata + bytes
              summary := { s.build.summary with
                metadataBytes := s.build.summary.metadataBytes + bytes } } }
        let (integer, more) ← loadVariant limits w function header .i64
        let (boolean, _) ← loadSecond limits w function header more
        if integer.isSome || boolean.isSome then
          ErrState.update fun s =>
            { s with build := { s.build with
                ready := setVector index ⟨integer, boolean⟩ s.build.ready } }
        else do
          unreserve 0 bytes
          lessen Build.programMetadata setProgramMetadata bytes
          lessen Build.metadataBytes setMetadataBytes bytes
      else do
        unreserve 0 bytes
        count fun n => { n with metadata := n.metadata + 1 }
    else count fun n => { n with threadBound := n.threadBound + 1 }

/-! ## Activations -/

/-- The activations of one kind. -/
def Build.activations (b : Build) : Which → Activations
  | .scalar => b.scalar
  | .methods => b.methods

/-- A build with other activations of one kind. -/
def Build.setActivations (b : Build) : Which → Activations → Build
  | .scalar, t => { b with scalar := t }
  | .methods, t => { b with methods := t }

/-- The activations with one more, and the lookup table allocated for the first. -/
def Activations.push (limit : Nat) (a : Activation) (t : Activations) : Activations :=
  let lookup := if t.ready = [] then List.replicate limit u32Max else t.lookup
  ⟨t.ready ++ [a], lookup.set a.shape.function t.ready.length⟩

/-- `Build::load_recursion` and `Build::load_methods`, which differ in the kind alone. -/
def loadActivation {z : Sizes} (limits : Limits z) (w : World) (which : Which) (shape : Shape) :
    M Unit := do
  if ← mayLoad w then
    if ← capped limits w then pure ()
    else
      let b := (← ErrState.get).build
      if b.functionLimit ≤ shape.function then pure ()
      else if ← reserveDescriptor limits w then
        let b := (← ErrState.get).build
        let first := (b.activations which).ready.isEmpty
        let metadata := saturatingAdd (saturatingAdd (saturatingAdd shape.metadata (which.size z))
          moduleReserveBytes) (if first then b.functionLimit * 4 else 0)
        if limits.programMetadataBytes < saturatingAdd b.programMetadata metadata ∨
            w.alloc .activation b.compiles = false then
          count fun n => { n with metadata := n.metadata + 1 }
        else do
          strike w .beforeCompile
          ErrState.update fun s =>
            { s with build := { s.build with compiles := s.build.compiles + 1 } }
          match w.compile (b.compiles + 1) with
          | .panicked => count fun n => { n with panicked := n.panicked + 1 }
          | .refused _ => count fun n => { n with other := n.other + 1 }
          | .done compiled =>
            let mapped := pageCeil compiled.bytes
            let allocateLookup : M Bool :=
              pure (! first || w.alloc .lookup (b.compiles + 1))
            if ← chargeAndLoad limits w mapped metadata allocateLookup then
              ErrState.update fun s =>
                let t := (s.build.activations which).push s.build.functionLimit
                  ⟨shape, compiled.bytes, mapped⟩
                { s with build :=
                    recordLoaded compiled.bytes mapped metadata (s.build.setActivations which t) }
            else pure ()
      else pure ()
  else pure ()

/-- `Build::load_recursion`. -/
def loadRecursion {z : Sizes} (limits : Limits z) (w : World) (shape : Shape) : M Unit :=
  loadActivation limits w .scalar shape

/-- `Build::load_methods`. -/
def loadMethods {z : Sizes} (limits : Limits z) (w : World) (shape : Shape) : M Unit :=
  loadActivation limits w .methods shape

/-! ## The build -/

/-- `MAX_REGIONS_PER_FUNCTION`. -/
def maxRegionsPerFunction : Nat := 64

/-- `MAX_FUNCTION_INFERENCE_CELLS`. -/
def maxFunctionInferenceCells : Nat := 4194304

/-- `recursion::MAX_SLOTS`. -/
def maxSlots : Nat := 64

/-- `recursion::MAX_INSTRUCTIONS`. -/
def maxInstructions : Nat := 1024

/-- `u64::saturating_mul`. -/
def saturatingMul (a b : Nat) : Nat := min (a * b) usizeMax

/-- `analysis_work`. -/
def analysisWork (len headers slots : Nat) : Nat :=
  let passes := 1 + 5 * min headers maxRegionsPerFunction
  let cells := saturatingMul len slots
  let inference := if cells ≤ maxFunctionInferenceCells then cells else 0
  saturatingAdd (saturatingMul len passes) inference

/-- An admitted region of a header: it is loaded, and then its vector variants when it iterates over
values that are not proven to be a range. -/
def loadCandidate {z : Sizes} (limits : Limits z) (w : World) (function header : Nat)
    (region : Region) : M Unit := do
  let index := (← ErrState.get).build.ready.length
  load limits w region
  let vector := region.collection.isNone && region.iter && ! w.provenRange function header
  let length := (← ErrState.get).build.ready.length
  if vector = true ∧ index < length then vectorVariants limits w function header index
  else pure ()

/-- One candidate header; whether a cap stops the build, and whether the next header follows. -/
def buildHeader {z : Sizes} (limits : Limits z) (w : World) (function remaining header : Nat) :
    M (Bool × Bool) := do
  if ← capped limits w then do
    count fun n => { n with skippedAfterCaps := n.skippedAfterCaps + remaining }
    pure (true, false)
  else do
    count fun n => { n with candidates := n.candidates + 1 }
    strike w .analysis
    match w.candidate function header with
    | .ok (.ok region) => do
      count fun n => { n with regions := n.regions + 1 }
      loadCandidate limits w function header region
      pure (false, true)
    | .ok (.error .steps) => do
      count fun n => { n with steps := n.steps + 1 }
      pure (false, true)
    | .ok (.error .other) => pure (false, true)
    | .error .budget => do
      count fun n => { n with transient := n.transient + 1 }
      pure (false, true)
    | .error .error => do
      count fun n => { n with analysisErrors := n.analysisErrors + 1 }
      pure (false, false)

/-- The candidate headers of a function; whether a cap stops the build. -/
def buildHeaders {z : Sizes} (limits : Limits z) (w : World) (function remaining : Nat) :
    List Nat → M Bool
  | [] => pure false
  | header :: rest => do
    let (stop, more) ← buildHeader limits w function remaining header
    if stop then pure true
    else if more then buildHeaders limits w function remaining rest
    else pure false

/-- An activation the analysis admits is counted and loaded. -/
def loadAdmitted {z : Sizes} (limits : Limits z) (w : World) (which : Which) :
    Option Shape → M Unit
  | some shape => do
    count fun n => { n with regions := n.regions + 1 }
    match which with
    | .scalar => loadRecursion limits w shape
    | .methods => loadMethods limits w shape
  | none => pure ()

/-- The activation of a function that calls itself, within the analysis work of the program; what
that work is then. -/
def buildRecursion {z : Sizes} (limits : Limits z) (w : World) (function : Nat) (f : Function)
    (work : Nat) : M Nat := do
  if f.parameters ≤ 4 ∧ f.slots ≤ maxSlots ∧ f.len ≤ maxInstructions ∧ f.callsItself = true then
    let estimate := saturatingMul (saturatingMul f.len f.slots) (3 ^ (f.parameters + 1))
    if saturatingAdd work estimate ≤ limits.programAnalysisWork then do
      strike w .analysis
      loadAdmitted limits w .scalar (w.recursion function)
      pure (work + estimate)
    else do
      count fun n => { n with skippedBudget := n.skippedBudget + 1 }
      pure work
  else pure work

/-- The activation of a function with method closures; the analysis work then. -/
def buildMethods {z : Sizes} (limits : Limits z) (w : World) (function work : Nat) : M Nat := do
  let before := limits.programAnalysisWork - work
  strike w .analysis
  let (shape, left) := w.methods function before
  loadAdmitted limits w .methods shape
  pure (saturatingAdd work (before - left))

/-- What a scanned function goes through: activations, then its candidate headers.  The analysis
work of the program then, and whether a cap stops the build. -/
def buildScanned {z : Sizes} (limits : Limits z) (w : World) (function remaining : Nat)
    (f : Function) (headers : List Nat) (work : Nat) : M (Nat × Bool) := do
  let work ← buildRecursion limits w function f work
  let work ← buildMethods limits w function work
  if headers = [] then pure (work, false)
  else do
    strike w .analysis
    match w.context function with
    | .error .budget => do
      count fun n => { n with transient := n.transient + 1 }
      pure (work, false)
    | .error .error => do
      count fun n => { n with analysisErrors := n.analysisErrors + 1 }
      pure (work, false)
    | .ok () =>
      pure (work, ← buildHeaders limits w function remaining (headers.take maxRegionsPerFunction))

/-- One function past the cap on attempts: the gates, the header scan, and the rest. -/
def buildFunction {z : Sizes} (limits : Limits z) (w : World) (function remaining : Nat)
    (work : Nat) : M (Nat × Bool) := do
  count fun n => { n with attemptedFunctions := n.attemptedFunctions + 1 }
  match w.function function with
  | none => pure (work, false)
  | some f =>
    let b := (← ErrState.get).build
    if limits.programAnalyzedFunctions ≤ b.summary.analysedFunctions then do
      count fun n => { n with skippedBudget := n.skippedBudget + 1 }
      pure (work, false)
    else if limits.functionLen < f.len then do
      count fun n => { n with skippedLength := n.skippedLength + 1 }
      pure (work, false)
    else if limits.programAnalysisWork < saturatingAdd work f.len then do
      count fun n => { n with skippedBudget := n.skippedBudget + 1 }
      pure (work, false)
    else do
      let work := work + f.len
      strike w .analysis
      match w.scan function with
      | .error .budget => do
        count fun n => { n with transient := n.transient + 1 }
        pure (work, false)
      | .error .error => do
        count fun n => { n with analysisErrors := n.analysisErrors + 1 }
        pure (work, false)
      | .ok headers =>
        let rest := analysisWork f.len headers.length f.slots - f.len
        if limits.functionCandidateHeaders < headers.length then do
          count fun n => { n with skippedHeaders := n.skippedHeaders + 1 }
          pure (work, false)
        else if limits.programAnalysisWork < saturatingAdd work rest then do
          count fun n => { n with skippedBudget := n.skippedBudget + 1 }
          pure (work, false)
        else do
          count fun n => { n with analysedFunctions := n.analysedFunctions + 1 }
          buildScanned limits w function remaining f headers (work + rest)

/-- The functions of the code in order, until a cap stops the build. -/
def buildFunctions {z : Sizes} (limits : Limits z) (w : World) : List Nat → Nat → M Unit
  | [], _ => pure ()
  | function :: rest, work => do
    let remaining := w.functions - function
    if ← capped limits w then
      count fun n => { n with skippedAfterCaps := n.skippedAfterCaps + remaining }
    else if limits.programAttemptedFunctions ≤
        (← ErrState.get).build.summary.attemptedFunctions then
      count fun n => { n with skippedBudget := n.skippedBudget + remaining }
    else do
      let (work, stop) ← buildFunction limits w function remaining work
      if stop then pure ()
      else buildFunctions limits w rest work

/-- The state a build starts from. -/
def Build.new {z : Sizes} (limits : Limits z) (w : World) (id : Nat) : Build :=
  { id := id
    summary := { functions := min w.functions u32Max }
    ready := []
    programBytes := 0
    programMetadata := 0
    compiles := 0
    scalar := ⟨[], []⟩
    methods := ⟨[], []⟩
    descriptor := false
    descriptorAttempted := false
    functionLimit := min w.functions limits.programAttemptedFunctions }

/-- `build`, which ends by giving back a descriptor nothing was loaded for. -/
def build {z : Sizes} (limits : Limits z) (w : World) : M Unit := do
  buildFunctions limits w (List.range w.functions) 0
  let b := (← ErrState.get).build
  if b.summary.loaded = 0 ∧ b.descriptor = true then do
    ErrState.update fun s => { s with build := { s.build with descriptor := false } }
    unreserve 0 z.programDescriptor
    lessen Build.metadataBytes setMetadataBytes z.programDescriptor
  else pure ()

/-- The descriptor of what a build loaded. -/
def Build.program (b : Build) : Program :=
  let regions : ProgramRegions := ⟨b.id, b.ready, b.summary⟩
  if b.methods.ready ≠ [] then .methods regions b.scalar b.methods
  else if b.scalar.ready ≠ [] then .recursion regions b.scalar
  else .loops regions

/-! ## Checkouts, guards and evictions of a thread -/

/-- `Checkout`: the guard of a program, or the interpreter. -/
inductive Checkout
  | native (program : Program)
  | interpret (noRegions : Bool)
deriving DecidableEq, Repr

/-- The first half of `checkout`: an answer, or a `Building` entry for the code. -/
def Cache.admitBuild {z : Sizes} (limits : Limits z) (w : World) (code : Nat) (c : Cache) :
    Except Fault (Cache × Option Checkout) :=
  let c := { c with tick := c.tick + 1 }
  match c.position code with
  | some index =>
    let entries := c.entries.modify index fun e => { e with lastUse := c.tick }
    match entries[index]? with
    | none => .error .panic
    | some e =>
      match e.resident with
      | .ready program =>
        .ok ({ c with entries := entries.set index { e with resident := .checkedOut } },
          some (.native program))
      | .building | .checkedOut => .ok ({ c with entries := entries }, some (.interpret false))
      | .empty summary =>
        .ok ({ c with entries := entries }, some (.interpret (summary.regions == 0)))
  | none => do
    let (c, room) ←
      if limits.cachedPrograms ≤ c.entries.length then do
        let (c, evicted) ← c.evictLru code
        .ok (c, evicted.isSome)
      else .ok (c, true)
    if room && w.alloc .entry 0 then
      .ok ({ c with entries := c.entries ++ [⟨code, c.tick, 0, 0, .building⟩] }, none)
    else .ok (c, some (.interpret false))

/-- The second half of `checkout`, after the build. -/
def Cache.settle (c : Cache) (b : Build) : Except Fault (Cache × Checkout) :=
  match c.position b.id with
  | none => .ok (c, .interpret false)
  | some index =>
    if b.summary.loaded = 0 then
      .ok ({ c with entries := c.entries.modify index fun e =>
          { e with resident := .empty b.summary } }, .interpret (b.summary.regions == 0))
    -- The descriptor is reserved before anything is loaded.
    else if b.descriptor = false then .error .panic
    else
      .ok ({ c with entries := c.entries.modify index fun e =>
          { e with resident := .checkedOut } }, .native b.program)

/-- `checkout`: what it answers, or that its build unwound and took its marker along. -/
def Cache.checkout {z : Sizes} (limits : Limits z) (w : World) (code : Nat) (c : Cache) :
    Except Fault (Cache × Option Checkout) := do
  match ← c.admitBuild limits w code with
  | (c, some answer) => .ok (c, some answer)
  | (c, none) =>
    match build limits w ⟨c, Build.new limits w code⟩ with
    | (.ok (), s) => do
      let (c, answer) ← s.cache.settle s.build
      .ok (c, some answer)
    | (.error .panic, s) => do
      let c ← s.cache.dropMarker code
      .ok (c, none)
    | (.error .underflow, _) => .error .underflow

/-- A thread: its cache, and the programs its invocations have checked out. -/
structure Thread where
  cache : Cache
  guards : List Program
deriving DecidableEq, Repr

/-- What a thread does with its cache. -/
inductive Event
  | checkout (code : Nat) (w : World)
  | dropGuard (index : Nat)
  | evict (code : Nat)

/-- What a step comes to. -/
inductive Output
  | native (program : Program)
  | interpret (noRegions : Bool)
  | unwound
  | putBack
  | evicted (removed : Bool)
  | fault (fault : Fault)
deriving DecidableEq, Repr

/-- The cache of a thread, with the events of its invocations in any order. -/
def machine {z : Sizes} (limits : Limits z) : Machine Thread Event Output where
  start := fun t => t = ⟨⟨[], 0, 0, 0⟩, []⟩
  next := fun t event =>
    match event with
    | .checkout code w =>
      match t.cache.checkout limits w code with
      | .ok (c, some (.native program)) =>
        some (⟨c, t.guards ++ [program]⟩, .native program)
      | .ok (c, some (.interpret noRegions)) => some (⟨c, t.guards⟩, .interpret noRegions)
      | .ok (c, none) => some (⟨c, t.guards⟩, .unwound)
      | .error fault => some (t, .fault fault)
    | .dropGuard index =>
      match t.guards[index]? with
      | none => none
      | some program => some (⟨t.cache.putBack program, t.guards.eraseIdx index⟩, .putBack)
    | .evict code =>
      match t.cache.evict code with
      | .ok (c, removed) => some (⟨c, t.guards⟩, .evicted removed)
      | .error fault => some (t, .fault fault)

end Native

end Rnx
