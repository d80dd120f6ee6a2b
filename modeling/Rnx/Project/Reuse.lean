import Rnx.Lib.Partition
import Rnx.Project.Snapshot

/-!
# Reusing the fingerprint of an enclosing root

`fingerprint/reuse.rs`: the tree of a root below one that was hashed is derived from what was
observed then.  Its files are a range of the ordered files of the parent; each is charged as if it
were read, its metadata is compared with what was seen when it was, and the hash of the tree is fed
from the recorded digests.
-/

namespace Rnx

namespace Project

namespace Fingerprint

open ErrState PathText Partition

/-- `Observation`, as far as a derivation uses it: the tree, and the metadata of its files. -/
structure Observation where
  tree : Tree
  files : List Metadata

/-- `observed`, by what `symlink_metadata` answers. -/
def observed (stat : PathBuf → Except IoError Metadata) (path : PathBuf) :
    Except Failure (Option Metadata) :=
  match stat path with
  | .ok m => .ok (some m)
  | .error e => if e.notFound = true then .ok none else .error (failAt path e.text)

/-- The files of a range of the parent, with the names they have below the child. -/
def reuseFiles (stat : PathBuf → Except IoError Metadata) (root : PathBuf) (skip : Nat) :
    List (File × Metadata) → ErrState Failure Hashing (List File)
  | [] => pure []
  | (f, old) :: rest => do
    let relative := components (f.path.drop skip)
    let p := join root (components f.path)
    let seen ← ofExcept (observed stat p)
    guardWith (seen = some old) (failAt p "file observation changed before reuse")
    let s ← get
    guardWith (f.bytes ≤ s.allowance.bytes) (failAt p "fingerprint exceeds byte allowance")
    chargeBytes f.bytes
    let path ← ofExcept (text relative)
    let files ← reuseFiles stat root skip rest
    pure ({ f with path } :: files)

/-- What the hash of the tree is fed for recorded files. -/
def reuseStream : List File → Except Failure (List UInt8)
  | [] => .ok []
  | f :: files => do
    let digest ← (Digest.fromHex f.blake3).elim (.error ⟨none, "invalid digest"⟩) .ok
    let rest ← reuseStream files
    pure (BigEndian.toBytes 8 f.path.length ++ f.path ++ [flag f.executable] ++
      BigEndian.toBytes 8 f.bytes ++ digest.bytes ++ rest)

/-- `derive`.  The child is a path below the root of the parent. -/
def derive (blake3 : List UInt8 → Digest) (stat : PathBuf → Except IoError Metadata)
    (parent : Observation) (child : PathBuf) : ErrState Failure Hashing Tree := do
  let below ← ofExcept (text (child.drop parent.tree.root.length))
  let front := below ++ [slash]
  let start := partitionPoint (fun f => decide (f.path < front)) parent.tree.files
  let count := partitionPoint (fun f => front.isPrefixOf f.path) (parent.tree.files.drop start)
  (List.range' start count).forM fun _ => entry
  let files ← reuseFiles stat parent.tree.root front.length
    (((parent.tree.files.zip parent.files).drop start).take count)
  guardWith (files ≠ []) (failAt child "native root has no tracked files")
  let stream ← ofExcept (reuseStream files)
  pure ⟨child, (blake3 (treeHeader ++ stream)).toHex, files⟩

/-- The path of a file below a directory, from that directory on: `strip_prefix`, for the paths that
go on. -/
def below (directory path : PathBuf) : Option PathBuf :=
  if directory <+: path ∧ directory.length < path.length then some (path.drop directory.length)
  else none

end Fingerprint

end Project

end Rnx
