import Mathlib.Data.List.Sort
import Rnx.Lib.BigEndian
import Rnx.Lib.Bytes
import Rnx.Lib.ErrState
import Rnx.Lib.Hex
import Rnx.Lib.PathText
import Rnx.Lib.Utf8

/-!
# Fingerprints of trees

`fingerprint.rs`: an inventory of relative paths is ordered by name, every file is read once within
an allowance of bytes, and its name, its executable bit, its length and the digest of its content
are fed to the hash of the tree.

The file system is what it answers each call (`Disk`), so that a file may change between two calls.
The hash is any function from bytes to digests; that a hasher which is fed piece by piece hashes the
pieces put together is its documentation.  The observation that the nested roots reuse is kept in
`Hashing`, for a run in which it is active.
-/

namespace Rnx

namespace Project

namespace Fingerprint

open ErrState PathText

/-- `Path`, by its components. -/
abbrev PathBuf := List Component

/-- An error of the operating system. -/
structure IoError where
  notFound : Bool
  text : String

/-- An error: `fail` names a path, other errors are their text. -/
structure Failure where
  path : Option PathBuf
  reason : String

/-- `fail`. -/
def failAt (path : PathBuf) (reason : String) : Failure := ⟨some path, reason⟩

/-- `fs::Metadata`, as far as it is asked for. -/
@[ext]
structure Metadata where
  dev : Nat
  ino : Nat
  mode : Nat
  len : Nat
  sec : Int
  nano : Int
  len_lt : len < 2 ^ 64

instance metadataDecidableEq : DecidableEq Metadata := fun _ _ => decidable_of_iff _ Metadata.ext_iff.symm

namespace Metadata

/-- `is_file`. -/
def isFile (m : Metadata) : Bool := m.mode &&& 0o170000 == 0o100000

/-- `is_symlink`. -/
def isSymlink (m : Metadata) : Bool := m.mode &&& 0o170000 == 0o120000

/-- `executable`. -/
def executable (m : Metadata) : Bool := m.mode &&& 0o111 != 0

end Metadata

/-- A digest of BLAKE3. -/
structure Digest where
  bytes : List UInt8
  length_eq : bytes.length = 32
deriving DecidableEq

/-- `Hash::to_hex`. -/
def Digest.toHex (d : Digest) : String := String.ofList (Hex.encode d.bytes)

/-- `Hash::from_hex`. -/
def Digest.fromHex (text : String) : Option Digest :=
  (Hex.decode text.toList).bind fun bytes =>
    if h : bytes.length = 32 then some ⟨bytes, h⟩ else none

lemma Digest.fromHex_toHex (d : Digest) : fromHex d.toHex = some d := by
  unfold fromHex toHex
  rw [String.toList_ofList, Hex.decode_encoded]
  exact dif_pos d.length_eq

/-- `wire::File`. -/
structure File where
  path : List UInt8
  executable : Bool
  bytes : Nat
  blake3 : String
deriving DecidableEq

/-- `Tree`. -/
structure Tree where
  root : PathBuf
  blake3 : String
  files : List File
deriving DecidableEq

/-- `Allowance`. -/
structure Allowance where
  entries : Nat
  bytes : Nat
deriving DecidableEq

/-- What a run has: its allowance, what the hash of the tree was fed, when there is one, and the
files that were observed. -/
structure Hashing where
  allowance : Allowance
  tree : Option (List UInt8)
  observed : List Metadata

/-- What the operating system answers: the metadata of a part of a path while the path of a file is
checked for links, of the file before it is opened, once it is open, when nothing is left of the
allowance, and after it was read, and what a read at an offset returns. -/
structure Disk where
  link : PathBuf → PathBuf → Except IoError Metadata
  before : PathBuf → Except IoError Metadata
  opened : PathBuf → Except IoError Metadata
  read : PathBuf → Nat → Nat → Except IoError (List UInt8)
  ended : PathBuf → Except IoError Metadata
  after : PathBuf → Except IoError Metadata
  read_le : ∀ path offset size bytes, read path offset size = .ok bytes → bytes.length ≤ size

/-! ## Names -/

/-- The name of a component. -/
def componentName (path : PathBuf) : Component → Except Failure Name
  | .normal name =>
      if (Utf8.fromUtf8 name.bytes).error.isSome then .error (failAt path "non-Unicode name")
      else if name.bytes.contains 92 then
        .error (failAt path "backslash in inventory name is unsupported")
      else .ok name
  | _ => .error (failAt path "expected relative normal path")

/-- `text`.  A text that no allocation holds is a panic. -/
def text (path : PathBuf) : Except Failure (List UInt8) := do
  let parts ← path.mapM (componentName path)
  if parts = [] then .error (failAt path "empty inventory path")
  else if (spell parts).length < 2 ^ 63 then .ok (spell parts)
  else .error ⟨none, "capacity overflow"⟩

/-- The inventory by name, a `BTreeMap`, where no name may come twice. -/
def inventory : List PathBuf → List (List UInt8 × PathBuf) →
    Except Failure (List (List UInt8 × PathBuf))
  | [], ordered => .ok ordered
  | path :: paths, ordered => do
    let key ← text path
    if key ∈ ordered.map Prod.fst then .error ⟨none, "duplicate inventory path"⟩
    else inventory paths (ordered.orderedInsert (fun a b => a.1 ≤ b.1) (key, path))

/-! ## The allowance -/

/-- `Allowance::entry`. -/
def entry : ErrState Failure Hashing Unit := do
  let s ← get
  guardWith (1 ≤ s.allowance.entries) ⟨none, "fingerprint exceeds entry allowance"⟩
  update fun s => { s with allowance := { s.allowance with entries := s.allowance.entries - 1 } }

/-- Bytes are taken from the allowance. -/
def spend (n : Nat) (s : Hashing) : Hashing :=
  { s with allowance := { s.allowance with bytes := s.allowance.bytes - n } }

/-- `Allowance::charge_bytes`. -/
def chargeBytes (n : Nat) : ErrState Failure Hashing Unit := do
  let s ← get
  guardWith (n ≤ s.allowance.bytes) ⟨none, "fingerprint exceeds byte allowance"⟩
  update (spend n)

/-! ## Files -/

/-- The magic and the version of the encoding, `rnx-tree-v2` with a zero byte. -/
def treeHeader : List UInt8 := [114, 110, 120, 45, 116, 114, 101, 101, 45, 118, 50, 0]

/-- `update` of the hash of the tree, when there is one. -/
def feed (bytes : List UInt8) (s : Hashing) : Hashing :=
  { s with tree := s.tree.map (· ++ bytes) }

/-- A call of the operating system. -/
def io {α : Type} (path : PathBuf) (r : Except IoError α) : ErrState Failure Hashing α :=
  ofExcept (r.mapError fun e => failAt path e.text)

variable (blake3 : List UInt8 → Digest) (d : Disk)

/-- `components_no_links`, from a part of the path on. -/
def componentsNoLinks (file : PathBuf) : PathBuf → List Component → ErrState Failure Hashing Unit
  | _, [] => pure ()
  | path, component :: rest => do
    let m ← io (path ++ [component]) (d.link file (path ++ [component]))
    guardWith (m.isSymlink = false) (failAt (path ++ [component]) "symlink refused")
    componentsNoLinks file (path ++ [component]) rest

/-- `regular`. -/
def regular (path : PathBuf) : ErrState Failure Hashing Metadata := do
  let m ← io path (d.before path)
  guardWith (m.isFile = true)
    (failAt path "not a regular file (symlinks and special files are refused)")
  pure m

/-- The loop that reads a file of the given length, where so many bytes remain. -/
def readContent (path : PathBuf) (len remaining : Nat) (content : List UInt8) :
    ErrState Failure Hashing (List UInt8) :=
  if _h : remaining = 0 then pure content
  else do
    let bytes ← io path (d.read path (len - remaining) (min remaining 16384))
    if _hempty : bytes.length = 0 then fail (failAt path "size changed during read")
    else do
      update (spend bytes.length)
      readContent path len (remaining - bytes.length) (content ++ bytes)
termination_by remaining

/-- The byte after a file, which tells whether it grew; it is not read when it could not be
charged. -/
def detect (path : PathBuf) (opened : Metadata) : ErrState Failure Hashing Unit := do
  let s ← get
  if s.allowance.bytes = 0 then do
    let ended ← io path (d.ended path)
    guardWith (ended.len = opened.len) (failAt path "size changed during read")
  else do
    let extra ← io path (d.read path opened.len 1)
    update (spend extra.length)
    guardWith (extra.length = 0) (failAt path "size changed during read")

/-- `u8::from` of a flag. -/
def flag (b : Bool) : UInt8 := if b = true then 1 else 0

/-- `hash_file`. -/
def hashFile (root relative : PathBuf) (name : List UInt8) :
    ErrState Failure Hashing (File × Metadata × Metadata) := do
  let path := join root relative
  componentsNoLinks d path root relative
  let before ← regular d path
  let s ← get
  guardWith (before.len ≤ s.allowance.bytes) (failAt path "fingerprint exceeds byte allowance")
  let opened ← io path (d.opened path)
  guardWith (opened.isFile = true ∧ opened.len = before.len ∧
    opened.executable = before.executable) (failAt path "file changed before read")
  update (feed (BigEndian.toBytes 8 name.length))
  update (feed name)
  update (feed [flag opened.executable])
  update (feed (BigEndian.toBytes 8 opened.len))
  let content ← readContent d path opened.len opened.len []
  detect d path opened
  let after ← io path (d.after path)
  guardWith (after.len = opened.len ∧ after.executable = opened.executable)
    (failAt path "file changed during read")
  update fun s => { s with observed := s.observed ++ [after] }
  update (feed (blake3 content).bytes)
  pure (⟨name, opened.executable, opened.len, (blake3 content).toHex⟩, opened, after)

/-- The files of an ordered inventory. -/
def hashOrdered (root : PathBuf) :
    List (List UInt8 × PathBuf) → ErrState Failure Hashing (List File)
  | [] => pure []
  | (name, relative) :: rest => do
    let (file, _, _) ← hashFile blake3 d root relative name
    let files ← hashOrdered root rest
    pure (file :: files)

/-- `hash_files`. -/
def hashFiles (root : PathBuf) (paths : List PathBuf) : ErrState Failure Hashing Tree := do
  let ordered ← ofExcept (inventory paths [])
  update fun s => { s with tree := some treeHeader }
  let files ← hashOrdered blake3 d root ordered
  let s ← get
  pure ⟨root, (blake3 (s.tree.getD [])).toHex, files⟩

/-- `native_using`, once the listing of the tracked files is taken apart. -/
def native (root : PathBuf) (paths : List PathBuf) : ErrState Failure Hashing Tree := do
  paths.forM fun _ => entry
  guardWith (paths ≠ []) (failAt root "native root has no tracked files")
  hashFiles blake3 d root paths

end Fingerprint

end Project

end Rnx
