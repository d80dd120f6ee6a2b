import Mathlib.Data.String.Basic
import Rnx.Lib.Canonical
import Rnx.Lib.Outcome
import Rnx.Lib.PathText
import Rnx.Lib.Utf8
import Rnx.Project.Wire

/-!
# The identity of an assembly

`cache_identity.rs`: what an assembly is built from, as a document whose five collections are
sorted, its text and the digest of the text.  Making an identity sorts; reading one checks that
everything is in strict order and that the text is the one that would be written.

A path is its bytes, and paths are compared by their components.  What the file system, the
generator of the wrapper, the hash, TOML and JSON do is `World`.
-/

namespace Rnx

namespace Project

namespace CacheIdentity

open Canonical PathText

/-! ## Documents -/

/-- `PathBuf`. -/
abbrev PathBuf := List UInt8

/-- `Build`. -/
inductive Build
  | privateTarget
  | shared (key : String)
deriving DecidableEq

/-- `Context`. -/
structure Context (P : Type) where
  cacheRoot : P
  cargoHome : P
  rustupHome : Option P
  rustupToolchain : Option String
  rustc : String
  cargo : String
  target : String
  profile : String
  features : List String
  build : Option Build
deriving DecidableEq

/-- `File`. -/
structure File where
  path : String
  executable : Bool
  bytes : Nat
  blake3 : String
deriving DecidableEq

/-- `Tree`. -/
structure Tree (P : Type) where
  root : P
  blake3 : String
  files : List File
deriving DecidableEq

/-- `Association`. -/
structure Association (P : Type) where
  id : String
  name : String
  manifest : P
  root : P
deriving DecidableEq

/-- `External`. -/
structure External (P : Type) where
  path : P
  file : Option File
deriving DecidableEq

/-- `Inventory`. -/
structure Inventory (P : Type) where
  platform : String
  packages : List (Association P)
  trees : List (Tree P)
  external : List (External P)
deriving DecidableEq

/-- `Document`. -/
structure Document (P : Type) where
  format : Nat
  generator : Nat
  context : Context P
  manifest : String
  main : String
  cargoLockBlake3 : String
  native : Inventory P
deriving DecidableEq

/-! ### The paths of a document -/

section Paths

variable {P Q R : Type}

/-- The document with something else for each path. -/
def Document.map (f : P → Q) (d : Document P) : Document Q where
  format := d.format
  generator := d.generator
  context :=
    { cacheRoot := f d.context.cacheRoot
      cargoHome := f d.context.cargoHome
      rustupHome := d.context.rustupHome.map f
      rustupToolchain := d.context.rustupToolchain
      rustc := d.context.rustc
      cargo := d.context.cargo
      target := d.context.target
      profile := d.context.profile
      features := d.context.features
      build := d.context.build }
  manifest := d.manifest
  main := d.main
  cargoLockBlake3 := d.cargoLockBlake3
  native :=
    { platform := d.native.platform
      packages := d.native.packages.map fun p => ⟨p.id, p.name, f p.manifest, f p.root⟩
      trees := d.native.trees.map fun t => ⟨f t.root, t.blake3, t.files⟩
      external := d.native.external.map fun e => ⟨f e.path, e.file⟩ }

/-- The paths of a document. -/
def Document.paths (d : Document P) : List P :=
  d.context.cacheRoot :: d.context.cargoHome :: d.context.rustupHome.toList ++
    (d.native.packages.map Association.root ++ d.native.packages.map Association.manifest ++
      d.native.trees.map Tree.root ++ d.native.external.map External.path)

lemma Document.map_map (g : Q → R) (f : P → Q) (d : Document P) :
    (d.map f).map g = d.map (g ∘ f) := by
  simp only [Document.map, List.map_map, Option.map_map]
  rfl

/-- A map that changes none of the paths changes nothing. -/
lemma Document.map_eq_self {f : P → P} {d : Document P} (h : ∀ p ∈ d.paths, f p = p) :
    d.map f = d := by
  unfold Document.paths at h
  simp only [List.forall_mem_append, List.forall_mem_cons, List.forall_mem_map,
    Option.mem_toList] at h
  obtain ⟨⟨hcache, hcargo, hrustup⟩, ⟨⟨hroots, hmanifests⟩, htrees⟩, hexternal⟩ := h
  have hrustup : d.context.rustupHome.map f = d.context.rustupHome := by
    cases hhome : d.context.rustupHome with
    | none => rfl
    | some p => exact congrArg some (hrustup p hhome)
  have hpackages : d.native.packages.map (fun p => Association.mk p.id p.name (f p.manifest) (f p.root)) =
      d.native.packages :=
    (List.map_congr_left fun p hp => by rw [hmanifests p hp, hroots p hp]; rfl).trans (List.map_id _)
  have htrees : d.native.trees.map (fun t => Tree.mk (f t.root) t.blake3 t.files) = d.native.trees :=
    (List.map_congr_left fun t ht => by rw [htrees t ht]; rfl).trans (List.map_id _)
  have hexternal : d.native.external.map (fun e => External.mk (f e.path) e.file) = d.native.external :=
    (List.map_congr_left fun e he => by rw [hexternal e he]; rfl).trans (List.map_id _)
  unfold Document.map
  rw [hcache, hcargo, hrustup, hpackages, htrees, hexternal]

end Paths

/-- `Identity`. -/
structure Identity where
  document : Document PathBuf
  bytes : List UInt8
  key : String
deriving DecidableEq

/-- `toml::Value`, as far as it is asked for. -/
inductive Toml
  | string (s : String)
  | table (entries : List (String × Toml))
  | other

namespace Toml

/-- `value.get(key)`. -/
def get : Toml → String → Option Toml
  | table entries, key => entries.lookup key
  | _, _ => none

/-- `as_str`. -/
def asStr : Toml → Option String
  | string s => some s
  | _ => none

/-- `as_table`. -/
def asTable : Toml → Option (List (String × Toml))
  | table entries => some entries
  | _ => none

end Toml

/-- What is around the identities: the file system, the generator, the hash, TOML and JSON. -/
structure World (M : Type) where
  canonicalize : PathBuf → Except String PathBuf
  isDir : PathBuf → Bool
  display : PathBuf → String
  canonicalWrapper : M → PathBuf → Except String (String × String)
  digest : List UInt8 → String
  toml : String → Except String Toml
  toVec : Document PathBuf → Except String (List UInt8)
  fromSlice : List UInt8 → Except String (Document PathBuf)

/-! ## Paths -/

/-- The path of a text. -/
def pathOf (s : String) : PathBuf := Utf8.encode s.toList

/-- `is_absolute`. -/
def isAbsolute (p : PathBuf) : Bool := p.head? = some slash

/-- `to_str().is_some()`. -/
def isUnicode (p : PathBuf) : Bool := (Utf8.fromUtf8 p).error.isNone

/-- `starts_with`. -/
def startsWith (p front : PathBuf) : Bool := (components front).isPrefixOf (components p)

/-- The text of a component. -/
def componentText : Component → List UInt8
  | .root => [slash]
  | .current => [46]
  | .parent => [46, 46]
  | .normal name => name.bytes

/-- `PathBuf::push`. -/
def push (p text : PathBuf) : PathBuf :=
  if text.head? = some slash then text
  else if p = [] ∨ p.getLast? = some slash then p ++ text
  else p ++ slash :: text

/-- `components().collect::<PathBuf>()`. -/
def collect (cs : List Component) : PathBuf := cs.foldl (fun p c => push p (componentText c)) []

/-- `path`. -/
def path (p : PathBuf) : Except String Unit :=
  if isAbsolute p = false ∨ isUnicode p = false ∨ collect (components p) ≠ p ∨
      .parent ∈ components p ∨ .current ∈ components p then
    .error "assembly identity requires normalized absolute Unicode paths"
  else .ok ()

/-- `valid_digest`. -/
def validDigest (s : String) : Bool :=
  let bytes := pathOf s
  decide (bytes.length = 64) &&
    bytes.all fun b => decide (48 ≤ b ∧ b ≤ 57) || decide (97 ≤ b ∧ b ≤ 102)

/-- `nonempty`. -/
def nonempty (s : String) : Except String Unit :=
  if s.isEmpty = true ∨ s.toList.contains '\x00' = true then
    .error "empty or NUL assembly identity field"
  else .ok ()

/-- `relative`. -/
def relative (s : String) : Except String Unit :=
  if s.isEmpty = true ∨ s.toList.contains '\\' = true ∨ s.toList.contains '\x00' = true ∨
      (s.toList.splitOn '/').any (fun p => p = [] || p = ['.'] || p = ['.', '.']) = true ∨
      isAbsolute (pathOf s) = true then
    .error "invalid relative inventory path"
  else .ok ()

/-! ## What a document must be -/

/-- `strictly_sorted`, after a previous value. -/
def strictlySorted {κ : Type} [LinearOrder κ] (previous : Option κ) : List κ → Except String Unit
  | [] => .ok ()
  | value :: values =>
      if ∃ p ∈ previous, value ≤ p then
        .error "assembly identity collection is unsorted or duplicated"
      else strictlySorted (some value) values

/-- `ENTRIES`. -/
def entriesLimit : Nat := 100000

/-- `BYTES`. -/
def bytesLimit : Nat := 512 * 1024 * 1024

/-- The checks of one file, and the counts of files and bytes so far. -/
def validateFile (totals : Nat × Nat) (f : File) : Except String (Nat × Nat) := do
  relative f.path
  if validDigest f.blake3 = false then .error "invalid inventory digest"
  else if 18446744073709551616 ≤ totals.2 + f.bytes then .error "inventory size overflow"
  else if entriesLimit < totals.1 + 1 ∨ bytesLimit < totals.2 + f.bytes then
    .error "assembly inventory exceeds shared allowance"
  else .ok (totals.1 + 1, totals.2 + f.bytes)

/-- The checks of one tree. -/
def validateTree (cacheRoot : PathBuf) (totals : Nat × Nat) (t : Tree PathBuf) :
    Except String (Nat × Nat) := do
  path t.root
  if validDigest t.blake3 = false then .error "invalid native tree digest"
  else if startsWith cacheRoot t.root || startsWith t.root cacheRoot then
    .error "native inputs overlap assembly cache"
  else do
    strictlySorted none (t.files.map File.path)
    t.files.foldlM validateFile totals

/-- The checks of one package, after the associations of the packages before it. -/
def validatePackage (trees : List (Tree PathBuf)) (associations : List (List Component × String))
    (p : Association PathBuf) : Except String (List (List Component × String)) := do
  path p.root
  path p.manifest
  nonempty p.id
  nonempty p.name
  if components p.manifest ≠ components (push p.root (pathOf "Cargo.toml")) ∨
      (∀ t ∈ trees, components t.root ≠ components p.root) ∨
      (components p.root, p.name) ∈ associations then
    .error "invalid native package association"
  else .ok ((components p.root, p.name) :: associations)

/-- The checks of one dependency of the wrapper. -/
def validateDependency (packages : List (Association PathBuf)) (entry : String × Toml) : Except String Unit := do
  let root ← ((entry.2.get "path").bind Toml.asStr).elim (.error "assembly dependency needs a path") .ok
  let name := ((entry.2.get "package").bind Toml.asStr).getD entry.1
  path (pathOf root)
  if packages.any fun p => components p.root = components (pathOf root) && p.name = name then .ok ()
  else .error "assembly dependency missing from native inventory"

/-- The checks of one external entry. -/
def validateExternal (totals : Nat × Nat) (e : External PathBuf) : Except String (Nat × Nat) := do
  path e.path
  match e.file with
  | some f => validateFile totals f
  | none => .ok totals

section Validate

variable {M : Type} (W : World M)

/-- The checks of the wrapper manifest. -/
def validateWrapper (manifest : String) (packages : List (Association PathBuf)) : Except String Unit := do
  let wrapper ← (W.toml manifest).mapError ("assembly manifest: " ++ ·)
  let dependencies ← ((wrapper.get "dependencies").bind Toml.asTable).elim
    (.error "assembly manifest has no dependencies") .ok
  if dependencies.lookup "rnx" |>.isNone then .error "assembly manifest has no rnx dependency"
  else dependencies.forM (validateDependency packages)

/-- The checks of the fields of the context and of the texts. -/
def Document.validateFields (d : Document PathBuf) : Except String Unit := do
  if d.format ≠ 2 ∨ d.generator ≠ 2 then .error "unsupported assembly identity/generator version"
  else if d.context.build.isSome then .error "path assembly identity carries a build kind"
  else do
    [d.context.cacheRoot, d.context.cargoHome].forM path
    d.context.rustupHome.toList.forM path
    d.context.rustupToolchain.toList.forM nonempty
    [d.context.rustc, d.context.cargo, d.context.target, d.context.profile, d.manifest, d.main,
      d.native.platform].forM nonempty

/-- `Document::validate`. -/
def Document.validate (d : Document PathBuf) : Except String Unit := do
  d.validateFields
  strictlySorted none d.context.features
  d.context.features.forM nonempty
  if validDigest d.cargoLockBlake3 = false then .error "invalid Cargo lock digest"
  else if d.native.trees = [] ∨ d.native.packages = [] ∨ entriesLimit < d.native.trees.length ∨
      entriesLimit < d.native.packages.length ∨ entriesLimit < d.native.external.length then
    .error "invalid assembly inventory counts"
  else do
    strictlySorted none (d.native.trees.map fun t => components t.root)
    strictlySorted none (d.native.packages.map Association.id)
    strictlySorted none (d.native.external.map fun e => components e.path)
    let totals ← d.native.trees.foldlM (validateTree d.context.cacheRoot) (0, 0)
    let _ ← d.native.packages.foldlM (validatePackage d.native.trees) []
    validateWrapper W d.manifest d.native.packages
    let _ ← d.native.external.foldlM validateExternal totals
    .ok ()

/-! ## Identities -/

/-- `Identity::from_document`. -/
def fromDocument (d : Document PathBuf) : Except String Identity := do
  d.validate W
  let bytes ← W.toVec d
  if documentLimit < bytes.length then .error "document exceeds 16777216 bytes"
  else .ok ⟨d, bytes, W.digest bytes⟩

/-- `Identity::decode`. -/
def decode (bytes : List UInt8) : Except String Identity := do
  if documentLimit < bytes.length then .error "assembly identity exceeds document allowance"
  else do
    let d ← (W.fromSlice bytes).mapError ("assembly identity: " ++ ·)
    let identity ← fromDocument W d
    if identity.bytes ≠ bytes then .error "assembly identity is not canonically encoded"
    else .ok identity

/-- `directory`. -/
def directory (p : PathBuf) : Except String PathBuf := do
  if isAbsolute p = false ∨ isUnicode p = false then
    .error "assembly directory requires an absolute Unicode path"
  else do
    let p ← (W.canonicalize p).mapError fun e => "assembly directory " ++ W.display p ++ ": " ++ e
    if W.isDir p = false then .error ("assembly directory is not a directory: " ++ W.display p)
    else do
      path p
      .ok p

/-- The checks of `create` on one tree. -/
def checkTree (cacheRoot : PathBuf) (t : Tree PathBuf) : Except String Unit := do
  let root ← directory W t.root
  if components root ≠ components t.root then .error "native inventory root is not canonical"
  else if startsWith cacheRoot t.root || startsWith t.root cacheRoot then
    .error "native inputs and assembly cache must not contain one another"
  else .ok ()

/-- A tree with its files sorted. -/
def Tree.sort (t : Tree PathBuf) : Tree PathBuf := { t with files := sortBy File.path t.files }

/-- The inventory with its collections sorted. -/
def Inventory.sort (n : Inventory PathBuf) : Inventory PathBuf where
  platform := n.platform
  packages := sortBy Association.id n.packages
  trees := sortBy (fun t => components t.root) (n.trees.map Tree.sort)
  external := sortBy (fun e => components e.path) n.external

/-- `Identity::create`. -/
def create (manifest : M) (base : PathBuf) (context : Context PathBuf) (native : Inventory PathBuf)
    (cargoLock : List UInt8) : Except String Identity := do
  if cargoLock = [] ∨ documentLimit < cargoLock.length then
    .error "Cargo lock is empty or exceeds document allowance"
  else do
    let cacheRoot ← directory W context.cacheRoot
    let cargoHome ← directory W context.cargoHome
    let rustupHome ← context.rustupHome.mapM (directory W)
    let context := { context with
      cacheRoot := cacheRoot
      cargoHome := cargoHome
      rustupHome := rustupHome
      features := sortBy id context.features }
    native.trees.forM (checkTree W cacheRoot)
    let wrapper ← W.canonicalWrapper manifest base
    fromDocument W ⟨2, 2, context, wrapper.1, wrapper.2, W.digest cargoLock, native.sort⟩

end Validate

/-! ## What a valid document is -/

variable {M : Type} {W : World M} {d d' : Document PathBuf}

lemma strictlySorted_ok {κ : Type} [LinearOrder κ] {previous : Option κ} {l : List κ}
    (h : strictlySorted previous l = .ok ()) :
    l.Pairwise (· < ·) ∧ ∀ p ∈ previous, ∀ a ∈ l, p < a := by
  induction l generalizing previous with
  | nil => exact ⟨.nil, fun _ _ _ ha => absurd ha List.not_mem_nil⟩
  | cons a l ih =>
    unfold strictlySorted at h
    split_ifs at h with hle
    obtain ⟨hsorted, habove⟩ := ih h
    have hfirst := habove a rfl
    refine ⟨List.pairwise_cons.2 ⟨hfirst, hsorted⟩, fun p hp b hb => ?_⟩
    have hpa : p < a := lt_of_not_ge fun hge => hle ⟨p, hp, hge⟩
    obtain rfl | hb := List.mem_cons.1 hb
    · exact hpa
    · exact hpa.trans (hfirst b hb)

/-- The text of a path that is valid is the one its components spell. -/
lemma collect_components {p : PathBuf} (h : path p = .ok ()) : collect (components p) = p := by
  unfold path at h
  split_ifs at h with hbad
  by_contra hne
  exact hbad (.inr (.inr (.inl hne)))

lemma validateTree_ok {cacheRoot : PathBuf} {totals totals' : Nat × Nat} {t : Tree PathBuf}
    (h : validateTree cacheRoot totals t = .ok totals') :
    path t.root = .ok () ∧ (t.files.map File.path).Pairwise (· < ·) := by
  obtain ⟨⟨⟩, hpath, h⟩ := Except.bind_eq_ok.1 h
  split_ifs at h
  obtain ⟨⟨⟩, hsorted, h⟩ := Except.bind_eq_ok.1 h
  exact ⟨hpath, (strictlySorted_ok hsorted).1⟩

lemma validatePackage_ok {trees : List (Tree PathBuf)} {p : Association PathBuf}
    {associations associations' : List (List Component × String)}
    (h : validatePackage trees associations p = .ok associations') :
    path p.root = .ok () ∧ path p.manifest = .ok () := by
  obtain ⟨⟨⟩, hroot, h⟩ := Except.bind_eq_ok.1 h
  obtain ⟨⟨⟩, hmanifest, h⟩ := Except.bind_eq_ok.1 h
  exact ⟨hroot, hmanifest⟩

lemma validateExternal_ok {totals totals' : Nat × Nat} {e : External PathBuf}
    (h : validateExternal totals e = .ok totals') : path e.path = .ok () := by
  obtain ⟨⟨⟩, hpath, h⟩ := Except.bind_eq_ok.1 h
  exact hpath

lemma validateFields_ok (h : d.validateFields = .ok ()) :
    path d.context.cacheRoot = .ok () ∧ path d.context.cargoHome = .ok () ∧
      ∀ p ∈ d.context.rustupHome.toList, path p = .ok () := by
  unfold Document.validateFields at h
  split_ifs at h
  obtain ⟨⟨⟩, hroots, h⟩ := Except.bind_eq_ok.1 h
  obtain ⟨⟨⟩, hrustup, -⟩ := Except.bind_eq_ok.1 h
  have hroots := Except.forM_eq_ok.1 hroots
  exact ⟨hroots _ List.mem_cons_self, hroots _ (List.mem_cons_of_mem _ List.mem_cons_self),
    Except.forM_eq_ok.1 hrustup⟩

/-- What the order of the collections of a valid document is, and that its paths are valid. -/
structure Valid (d : Document PathBuf) : Prop where
  trees : (d.native.trees.map fun t => components t.root).Pairwise (· < ·)
  packages : (d.native.packages.map Association.id).Pairwise (· < ·)
  external : (d.native.external.map fun e => components e.path).Pairwise (· < ·)
  files : ∀ t ∈ d.native.trees, (t.files.map File.path).Pairwise (· < ·)
  paths : ∀ p ∈ d.paths, path p = .ok ()

lemma validate_ok (h : d.validate W = .ok ()) : Valid d := by
  obtain ⟨⟨⟩, hfields, h⟩ := Except.bind_eq_ok.1 h
  obtain ⟨⟨⟩, -, h⟩ := Except.bind_eq_ok.1 h
  obtain ⟨⟨⟩, -, h⟩ := Except.bind_eq_ok.1 h
  split_ifs at h
  obtain ⟨⟨⟩, htrees, h⟩ := Except.bind_eq_ok.1 h
  obtain ⟨⟨⟩, hpackages, h⟩ := Except.bind_eq_ok.1 h
  obtain ⟨⟨⟩, hexternal, h⟩ := Except.bind_eq_ok.1 h
  obtain ⟨totals, hall, h⟩ := Except.bind_eq_ok.1 h
  obtain ⟨associations, hassociations, h⟩ := Except.bind_eq_ok.1 h
  obtain ⟨⟨⟩, -, h⟩ := Except.bind_eq_ok.1 h
  obtain ⟨totals', hrest, -⟩ := Except.bind_eq_ok.1 h
  have htree := Except.foldlM_eq_ok hall
  have hpackage := Except.foldlM_eq_ok hassociations
  have hentry := Except.foldlM_eq_ok hrest
  refine ⟨(strictlySorted_ok htrees).1, (strictlySorted_ok hpackages).1,
    (strictlySorted_ok hexternal).1, fun t ht => ?_, ?_⟩
  · obtain ⟨s, s', hs⟩ := htree t ht
    exact (validateTree_ok hs).2
  · unfold Document.paths
    simp only [List.forall_mem_append, List.forall_mem_cons, List.forall_mem_map]
    refine ⟨validateFields_ok hfields, ⟨⟨fun p hp => ?_, fun p hp => ?_⟩, fun t ht => ?_⟩,
      fun e he => ?_⟩
    · obtain ⟨s, s', hs⟩ := hpackage p hp
      exact (validatePackage_ok hs).1
    · obtain ⟨s, s', hs⟩ := hpackage p hp
      exact (validatePackage_ok hs).2
    · obtain ⟨s, s', hs⟩ := htree t ht
      exact (validateTree_ok hs).1
    · obtain ⟨s, s', hs⟩ := hentry e he
      exact validateExternal_ok hs

/-- The paths of a valid document are determined by their components. -/
lemma Valid.eq_of_components (h : Valid d) (h' : Valid d')
    (hsame : d.map components = d'.map components) : d = d' := by
  have hback : ∀ {d : Document PathBuf}, Valid d → (d.map components).map collect = d := fun hd => by
    rw [Document.map_map]
    exact Document.map_eq_self fun p hp => collect_components (hd.paths p hp)
  rw [← hback h, hsame, hback h']

/-! ## Reading an identity -/

variable {bytes : List UInt8} {identity : Identity}

/-- What `serde_json` does with a document it has written. -/
def RoundTrip (W : World M) : Prop := ∀ d bytes, W.toVec d = .ok bytes → W.fromSlice bytes = .ok d

lemma fromDocument_ok : fromDocument W d = .ok identity ↔
    d.validate W = .ok () ∧ ∃ bytes, W.toVec d = .ok bytes ∧ bytes.length ≤ documentLimit ∧
      identity = ⟨d, bytes, W.digest bytes⟩ := by
  unfold fromDocument
  rw [Except.bind_eq_ok]
  constructor
  · rintro ⟨⟨⟩, hvalid, h⟩
    obtain ⟨bytes, hbytes, h⟩ := Except.bind_eq_ok.1 h
    split_ifs at h with hlong
    exact ⟨hvalid, bytes, hbytes, Nat.le_of_not_lt hlong, (Except.ok.inj h).symm⟩
  · rintro ⟨hvalid, bytes, hbytes, hshort, rfl⟩
    refine ⟨(), hvalid, Except.bind_eq_ok.2 ⟨bytes, hbytes, ?_⟩⟩
    rw [if_neg (Nat.not_lt_of_le hshort)]

/-- **What is read** is what would be written. -/
lemma decode_ok (hround : RoundTrip W) : decode W bytes = .ok identity ↔
    ∃ d, fromDocument W d = .ok identity ∧ identity.bytes = bytes := by
  unfold decode
  constructor
  · intro h
    split_ifs at h with hlong
    obtain ⟨d, -, h⟩ := Except.bind_eq_ok.1 h
    obtain ⟨read, hread, h⟩ := Except.bind_eq_ok.1 h
    split_ifs at h with hsame
    obtain rfl := Except.ok.inj h
    exact ⟨d, hread, not_not.1 hsame⟩
  · rintro ⟨d, hd, rfl⟩
    obtain ⟨-, bytes, hbytes, hshort, rfl⟩ := fromDocument_ok.1 hd
    rw [if_neg (Nat.not_lt_of_le hshort), hround d bytes hbytes]
    exact Except.bind_eq_ok.2 ⟨d, rfl, Except.bind_eq_ok.2 ⟨_, hd, if_neg (not_not.2 rfl)⟩⟩

/-! ## Making an identity -/

/-- A tree with its files in another order. -/
structure Tree.Reordered (t t' : Tree PathBuf) : Prop where
  root : t.root = t'.root
  blake3 : t.blake3 = t'.blake3
  files : t.files.Perm t'.files

/-- An inventory with its collections, and the files of its trees, in another order. -/
structure Inventory.Reordered (n n' : Inventory PathBuf) : Prop where
  platform : n.platform = n'.platform
  packages : n.packages.Perm n'.packages
  external : n.external.Perm n'.external
  trees : ∃ pairs : List (Tree PathBuf × Tree PathBuf), n.trees.Perm (pairs.map Prod.fst) ∧
    n'.trees.Perm (pairs.map Prod.snd) ∧ ∀ p ∈ pairs, p.1.Reordered p.2

lemma Tree.Reordered.symm {t t' : Tree PathBuf} (h : t.Reordered t') : t'.Reordered t :=
  ⟨h.root.symm, h.blake3.symm, h.files.symm⟩

lemma Inventory.Reordered.symm {n n' : Inventory PathBuf} (h : n.Reordered n') : n'.Reordered n := by
  obtain ⟨pairs, hn, hn', hpairs⟩ := h.trees
  refine ⟨h.platform.symm, h.packages.symm, h.external.symm, pairs.map Prod.swap, ?_, ?_, ?_⟩
  · rwa [List.map_map]
  · rwa [List.map_map]
  · exact List.forall_mem_map.2 fun p hp => (hpairs p hp).symm

/-- No two elements of a collection have one key. -/
structure Inventory.Distinct (n : Inventory PathBuf) : Prop where
  packages : (n.packages.map Association.id).Nodup
  external : (n.external.map fun e => components e.path).Nodup
  trees : (n.trees.map fun t => components t.root).Nodup
  files : ∀ t ∈ n.trees, (t.files.map File.path).Nodup

lemma Tree.Reordered.sort_eq {t t' : Tree PathBuf} (h : t.Reordered t')
    (hdistinct : (t.files.map File.path).Nodup) : t.sort = t'.sort := by
  unfold Tree.sort
  rw [h.root, h.blake3, sortBy_eq h.files hdistinct]

/-- **Sorting forgets the order.** -/
lemma Inventory.Reordered.sort_eq {n n' : Inventory PathBuf} (h : n.Reordered n')
    (hdistinct : n.Distinct) : n.sort = n'.sort := by
  obtain ⟨pairs, hn, hn', hpairs⟩ := h.trees
  have hsorted : (pairs.map Prod.fst).map Tree.sort = (pairs.map Prod.snd).map Tree.sort := by
    rw [List.map_map, List.map_map]
    refine List.map_congr_left fun p hp => (hpairs p hp).sort_eq (hdistinct.files p.1 ?_)
    exact hn.mem_iff.2 (List.mem_map_of_mem hp)
  have htrees : (n.trees.map Tree.sort).Perm (n'.trees.map Tree.sort) :=
    (hsorted ▸ hn.map Tree.sort).trans (hn'.map Tree.sort).symm
  have hroots : ((n.trees.map Tree.sort).map fun t => components t.root).Nodup := by
    rw [List.map_map]
    exact hdistinct.trees
  unfold Inventory.sort
  rw [h.platform, sortBy_eq h.packages hdistinct.packages, sortBy_eq h.external hdistinct.external,
    sortBy_eq htrees hroots]

/-- What is valid after sorting has no two elements with one key. -/
lemma distinct_of_valid {n : Inventory PathBuf} (hsort : d.native = n.sort) (h : Valid d) :
    n.Distinct := by
  have hpackages := h.packages
  have hexternal := h.external
  have htrees := h.trees
  have hfiles := h.files
  rw [hsort] at hpackages hexternal htrees hfiles
  refine ⟨nodup_of_strict hpackages, nodup_of_strict hexternal, ?_, fun t ht => ?_⟩
  · have hroots := nodup_of_strict htrees
    rwa [List.map_map] at hroots
  · exact nodup_of_strict (hfiles t.sort
      ((sortBy_perm _ _).mem_iff.2 (List.mem_map_of_mem ht)))

lemma checkTree_congr {cacheRoot : PathBuf} {t t' : Tree PathBuf} (h : t.root = t'.root) :
    checkTree W cacheRoot t = checkTree W cacheRoot t' := by
  unfold checkTree
  rw [h]

variable {m : M} {base : PathBuf} {c c' : Context PathBuf} {n n' : Inventory PathBuf}
  {lock : List UInt8}

/-- The context that `create` writes down. -/
def Context.resolved (c : Context PathBuf) (cacheRoot cargoHome : PathBuf)
    (rustupHome : Option PathBuf) : Context PathBuf :=
  { c with
    cacheRoot := cacheRoot
    cargoHome := cargoHome
    rustupHome := rustupHome
    features := sortBy id c.features }

lemma create_ok : create W m base c n lock = .ok identity ↔
    (lock ≠ [] ∧ lock.length ≤ documentLimit) ∧ ∃ cacheRoot cargoHome rustupHome wrapper,
      directory W c.cacheRoot = .ok cacheRoot ∧ directory W c.cargoHome = .ok cargoHome ∧
      c.rustupHome.mapM (directory W) = .ok rustupHome ∧
      (∀ t ∈ n.trees, checkTree W cacheRoot t = .ok ()) ∧ W.canonicalWrapper m base = .ok wrapper ∧
      fromDocument W ⟨2, 2, c.resolved cacheRoot cargoHome rustupHome, wrapper.1, wrapper.2,
        W.digest lock, n.sort⟩ = .ok identity := by
  unfold create
  constructor
  · intro h
    split_ifs at h with hlock
    rw [not_or] at hlock
    obtain ⟨cacheRoot, hcache, h⟩ := Except.bind_eq_ok.1 h
    obtain ⟨cargoHome, hcargo, h⟩ := Except.bind_eq_ok.1 h
    obtain ⟨rustupHome, hrustup, h⟩ := Except.bind_eq_ok.1 h
    obtain ⟨⟨⟩, htrees, h⟩ := Except.bind_eq_ok.1 h
    obtain ⟨wrapper, hwrapper, h⟩ := Except.bind_eq_ok.1 h
    exact ⟨⟨hlock.1, Nat.le_of_not_lt hlock.2⟩, cacheRoot, cargoHome, rustupHome, wrapper, hcache,
      hcargo, hrustup, Except.forM_eq_ok.1 htrees, hwrapper, h⟩
  · rintro ⟨⟨hlock, hshort⟩, cacheRoot, cargoHome, rustupHome, wrapper, hcache, hcargo, hrustup,
      htrees, hwrapper, h⟩
    rw [if_neg (not_or.2 ⟨hlock, Nat.not_lt_of_le hshort⟩)]
    exact Except.bind_eq_ok.2 ⟨cacheRoot, hcache, Except.bind_eq_ok.2 ⟨cargoHome, hcargo,
      Except.bind_eq_ok.2 ⟨rustupHome, hrustup, Except.bind_eq_ok.2 ⟨(), Except.forM_eq_ok.2 htrees,
        Except.bind_eq_ok.2 ⟨wrapper, hwrapper, h⟩⟩⟩⟩⟩

/-- A context with its features in another order. -/
structure Context.Reordered (c c' : Context PathBuf) : Prop where
  features : c.features.Perm c'.features
  rest : { c with features := c'.features } = c'

lemma Context.Reordered.symm (h : c.Reordered c') : c'.Reordered c := by
  refine ⟨h.features.symm, ?_⟩
  rw [← h.rest]

lemma Context.Reordered.resolved_eq (h : c.Reordered c') (cacheRoot cargoHome : PathBuf)
    (rustupHome : Option PathBuf) :
    c.resolved cacheRoot cargoHome rustupHome = c'.resolved cacheRoot cargoHome rustupHome := by
  have hfeatures : sortBy id c.features = sortBy id c'.features := sortBy_id_eq h.features
  rw [← h.rest]
  unfold Context.resolved
  rw [hfeatures]

/-- What one order makes, the other makes. -/
lemma create_reordered (hc : c.Reordered c') (hn : n.Reordered n')
    (h : create W m base c n lock = .ok identity) : create W m base c' n' lock = .ok identity := by
  obtain ⟨hlock, cacheRoot, cargoHome, rustupHome, wrapper, hcache, hcargo, hrustup, htrees, hwrapper,
    hdocument⟩ := create_ok.1 h
  have hdistinct := distinct_of_valid rfl (validate_ok (fromDocument_ok.1 hdocument).1)
  obtain ⟨pairs, hfst, hsnd, hpairs⟩ := hn.trees
  refine create_ok.2 ⟨hlock, cacheRoot, cargoHome, rustupHome, wrapper, ?_, ?_, ?_, fun t' ht' => ?_,
    hwrapper, ?_⟩
  · rw [← hc.rest]
    exact hcache
  · rw [← hc.rest]
    exact hcargo
  · rw [← hc.rest]
    exact hrustup
  · obtain ⟨p, hp, rfl⟩ := List.mem_map.1 (hsnd.mem_iff.1 ht')
    rw [← checkTree_congr (hpairs p hp).root]
    exact htrees p.1 (hfst.mem_iff.2 (List.mem_map_of_mem hp))
  · rwa [← hc.resolved_eq, ← hn.sort_eq hdistinct]

/-- **Identities are canonical**: the order of the features, the trees, their files, the packages and
the external entries does not matter; what is accepted is the text of a valid document, an identity
is read back from its own text, and different texts are of documents that differ, paths compared as
the program does. -/
theorem identity_canonical (W : World M) (hround : RoundTrip W) (m : M) (base : PathBuf)
    (c c' : Context PathBuf) (n n' : Inventory PathBuf) (lock : List UInt8) (hc : c.Reordered c')
    (hn : n.Reordered n') :
    (∀ identity, create W m base c n lock = .ok identity ↔ create W m base c' n' lock = .ok identity) ∧
      (∀ bytes, (∃ identity, decode W bytes = .ok identity) ↔
        ∃ d, d.validate W = .ok () ∧ W.toVec d = .ok bytes ∧ bytes.length ≤ documentLimit) ∧
      (∀ d identity, fromDocument W d = .ok identity → decode W identity.bytes = .ok identity) ∧
      (∀ identity, create W m base c n lock = .ok identity →
        decode W identity.bytes = .ok identity) ∧
      ∀ bytes bytes' identity identity', decode W bytes = .ok identity →
        decode W bytes' = .ok identity' → bytes ≠ bytes' →
        identity.document.map components ≠ identity'.document.map components := by
  have hown : ∀ d identity, fromDocument W d = .ok identity →
      decode W identity.bytes = .ok identity := fun d identity h => (decode_ok hround).2 ⟨d, h, rfl⟩
  refine ⟨fun identity => ⟨create_reordered hc hn, create_reordered hc.symm hn.symm⟩,
    fun bytes => ⟨?_, ?_⟩, hown, fun identity h => ?_, fun bytes bytes' identity identity' h h' hne => ?_⟩
  · rintro ⟨identity, h⟩
    obtain ⟨d, hd, rfl⟩ := (decode_ok hround).1 h
    obtain ⟨hvalid, bytes, hbytes, hshort, rfl⟩ := fromDocument_ok.1 hd
    exact ⟨d, hvalid, hbytes, hshort⟩
  · rintro ⟨d, hvalid, hbytes, hshort⟩
    exact ⟨_, hown d ⟨d, bytes, W.digest bytes⟩ (fromDocument_ok.2 ⟨hvalid, bytes, hbytes, hshort, rfl⟩)⟩
  · obtain ⟨-, _, _, _, _, -, -, -, -, -, hd⟩ := create_ok.1 h
    exact hown _ identity hd
  · intro hsame
    obtain ⟨d, hd, rfl⟩ := (decode_ok hround).1 h
    obtain ⟨d', hd', rfl⟩ := (decode_ok hround).1 h'
    obtain ⟨hvalid, bytes, hbytes, -, rfl⟩ := fromDocument_ok.1 hd
    obtain ⟨hvalid', bytes', hbytes', -, rfl⟩ := fromDocument_ok.1 hd'
    obtain rfl : d = d' := (validate_ok hvalid).eq_of_components (validate_ok hvalid') hsame
    exact hne (Except.ok.inj (hbytes.symm.trans hbytes'))

/-! ## An identity of two files -/

/-- The digest of an empty file. -/
def emptyDigest : String := "af1349b9f5f9a1a6a0404dea36dcc9499bcb25c9adc112b7cc9a93cae41f3262"

/-- A tree with two empty files, as it is listed in one order or the other. -/
def pairTree (files : List String) : Inventory PathBuf where
  platform := "l"
  packages := [⟨"i", "rnx", pathOf "/r/Cargo.toml", pathOf "/r"⟩]
  trees := [⟨pathOf "/r", emptyDigest, files.map fun f => ⟨f, false, 0, emptyDigest⟩⟩]
  external := []

/-- A context with its features in the order given. -/
def pairContext (features : List String) : Context PathBuf :=
  ⟨pathOf "/c", pathOf "/h", none, none, "r", "c", "t", "p", features, none⟩

/-- The document of both. -/
def pairDocument : Document PathBuf where
  format := 2
  generator := 2
  context := pairContext ["a", "b"]
  manifest := "[dependencies]\nrnx = \x7b path = \"/r\" \x7d\n"
  main := "fn main() \x7b\x7d\n"
  cargoLockBlake3 := "02115410c0fe70124ce1ec686d317abe059403fa14c68dbdc23e2693ace8da1c"
  native := pairTree ["a", "b"]

/-- The text of the document. -/
def pairText : List UInt8 := pathOf (
  "\x7b\"format\":2,\"generator\":2,\"context\":\x7b\"cache_root\":\"/c\",\"cargo_home\":\"/h\"," ++
  "\"rustup_home\":null,\"rustup_toolchain\":null,\"rustc\":\"r\",\"cargo\":\"c\",\"target\":\"t\"," ++
  "\"profile\":\"p\",\"features\":[\"a\",\"b\"]\x7d,\"manifest\":\"[dependencies]\\nrnx = " ++
  "\x7b path = \\\"/r\\\" \x7d\\n\",\"main\":\"fn main() \x7b\x7d\\n\",\"cargo_lock_blake3\":\"" ++
  pairDocument.cargoLockBlake3 ++ "\",\"native\":\x7b\"platform\":\"l\",\"packages\":[\x7b\"id\":\"i\"," ++
  "\"name\":\"rnx\",\"manifest\":\"/r/Cargo.toml\",\"root\":\"/r\"\x7d],\"trees\":[\x7b\"root\":\"/r\"," ++
  "\"blake3\":\"" ++ emptyDigest ++ "\",\"files\":[\x7b\"path\":\"a\",\"executable\":false,\"bytes\":0," ++
  "\"blake3\":\"" ++ emptyDigest ++ "\"\x7d,\x7b\"path\":\"b\",\"executable\":false,\"bytes\":0," ++
  "\"blake3\":\"" ++ emptyDigest ++ "\"\x7d]\x7d],\"external\":[]\x7d\x7d")

/-- What the document needs of its surroundings. -/
def pairWorld : World Unit where
  canonicalize := .ok
  isDir _ := true
  display _ := "a path"
  canonicalWrapper _ _ := .ok (pairDocument.manifest, pairDocument.main)
  digest bytes := if bytes = pairText then
      "082a7503668cdd8f4fa4b5f275c8f3ea8692ceb06b917ddd7ef05e2df4beed7a"
    else pairDocument.cargoLockBlake3
  toml _ := .ok (.table [("dependencies", .table [("rnx", .table [("path", .string "/r")])])])
  toVec d := if d = pairDocument then .ok pairText else .error "path contains invalid UTF-8 characters"
  fromSlice bytes := if bytes = pairText then .ok pairDocument else .error "expected value"

/-- Listed in either order the files make the same identity, and the text is that of a valid document
if it is accepted. -/
theorem identity_canonical_pair :
    (∀ identity, create pairWorld () (pathOf "/w") (pairContext ["b", "a"]) (pairTree ["b", "a"])
        (pathOf "version = 4\n") = .ok identity ↔
      create pairWorld () (pathOf "/w") (pairContext ["a", "b"]) (pairTree ["a", "b"])
        (pathOf "version = 4\n") = .ok identity) ∧
      ((∃ identity, decode pairWorld pairText = .ok identity) ↔ ∃ d, d.validate pairWorld = .ok () ∧
        pairWorld.toVec d = .ok pairText ∧ pairText.length ≤ documentLimit) := by
  have hround : RoundTrip pairWorld := fun d bytes h => by
    unfold pairWorld at h ⊢
    simp only at h ⊢
    split_ifs at h with hd
    obtain rfl := Except.ok.inj h
    rw [if_pos rfl, hd]
  have hcontext : (pairContext ["b", "a"]).Reordered (pairContext ["a", "b"]) := ⟨.swap _ _ _, rfl⟩
  have hfiles : (pairTree ["b", "a"]).Reordered (pairTree ["a", "b"]) :=
    ⟨rfl, .refl _, .refl _, [(⟨pathOf "/r", emptyDigest, _⟩, ⟨pathOf "/r", emptyDigest, _⟩)], .refl _,
      .refl _, List.forall_mem_singleton.2 ⟨rfl, rfl, .swap _ _ _⟩⟩
  have h := identity_canonical pairWorld hround () (pathOf "/w") _ _ _ _ (pathOf "version = 4\n")
    hcontext hfiles
  exact ⟨h.1, h.2.1 pairText⟩

end CacheIdentity

end Project

end Rnx
