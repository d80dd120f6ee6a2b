import Mathlib.Data.String.Basic
import Rnx.Lib.ErrState

/-!
# The source graph of a project

`graph.rs` follows the local source edges of an application from manifest to manifest and lists the
source roots to mount, one for each alias path; `wire.rs` hands the list to the worker and checks
it there again.

The file system is `Paths`, and reading a manifest is a function of its canonical path.  The state
keeps, beside the source's own fields, the manifests read so far, which is what a caller sees of
the calls to its `read`.
-/

namespace Rnx

namespace Project

open ErrState

/-- What is asked of a path: `canonicalize`, `is_absolute` and `display`. -/
structure Paths (P : Type) where
  canonicalize : P → Except String P
  isAbsolute : P → Bool
  display : P → String

/-- `Package`.  The dependencies of a `BTreeMap` come in the order of their aliases, which are
distinct. -/
structure Package (P : Type) where
  root : P
  dependencies : List (String × P)
  sorted : dependencies.Pairwise fun a b => a.1 < b.1

/-- `Mount`: the aliases are its `prefix`. -/
structure Mount (P : Type) where
  aliases : List String
  root : P
deriving DecidableEq

/-- The state of an expansion, with the manifests read. -/
structure GraphState (P : Type) where
  packages : List (P × Package P)
  ancestry : List P
  mounts : List (Mount P)
  reads : List P

/-- The name of an edge in an error. -/
def edgeName (aliases : List String) : String :=
  if aliases.isEmpty then "application" else "::".intercalate aliases

section Expand

variable {P : Type} [DecidableEq P] (F : Paths P) (read : P → Except String (Package P))

/-- The package of a canonical path, read when it is not in the table yet. -/
def package (edge : String) (path : P) : ErrState String (GraphState P) (Package P) := do
  let s ← get
  match s.packages.lookup path with
  | some package => pure package
  | none =>
    guardWith (s.packages.length ≠ 64) ("source edge `" ++ edge ++ "` exceeds 64 manifests")
    update fun s => { s with reads := s.reads ++ [path] }
    let package ← ofExcept (read path)
    update fun s => { s with packages := s.packages ++ [(path, package)] }
    pure package

/-- The canonical path of an edge, which is none of its ancestors. -/
def resolve (edge : String) (path : P) : ErrState String (GraphState P) P := do
  let canonical ← ofExcept ((F.canonicalize path).mapError fun e =>
    "source edge `" ++ edge ++ "` at " ++ F.display path ++ ": " ++ e)
  let s ← get
  guardWith (canonical ∉ s.ancestry)
    ("source cycle at `" ++ edge ++ "`: " ++ F.display canonical)
  pure canonical

/-- The push of a mount, which the entry has none of. -/
def mounting (aliases : List String) (root : P) (s : GraphState P) : GraphState P :=
  if aliases = [] then s else { s with mounts := s.mounts ++ [⟨aliases, root⟩] }

/-- `visit`. -/
def visit (path : P) (aliases : List String) : ErrState String (GraphState P) Unit :=
  if _hdepth : 16 < aliases.length then
    fail ("source edge `" ++ edgeName aliases ++ "` exceeds depth 16")
  else do
    let s ← get
    guardWith (aliases = [] ∨ s.mounts.length ≠ 256)
      ("source edge `" ++ edgeName aliases ++ "` exceeds 256 mounts")
    let path ← resolve F (edgeName aliases) path
    let package ← package read (edgeName aliases) path
    guardWith (F.isAbsolute package.root = true)
      ("source edge `" ++ edgeName aliases ++ "` has a non-absolute root")
    update (mounting aliases package.root)
    guardWith (package.dependencies.length ≤ 256)
      ("source edge `" ++ edgeName aliases ++ "` declares more than 256 dependencies")
    update fun s => { s with ancestry := s.ancestry ++ [path] }
    package.dependencies.forM fun dependency =>
      visit dependency.2 (aliases ++ [dependency.1])
    update fun s => { s with ancestry := s.ancestry.dropLast }
termination_by 17 - aliases.length
decreasing_by simp only [List.length_append, List.length_singleton]; omega

/-- `expand`, with the manifests read. -/
def expand (entry : P) : Except String (List (Mount P)) × List P :=
  let run := visit F read entry [] ⟨[], [], [], []⟩
  (run.1.map fun _ => run.2.mounts, run.2.reads)

end Expand

end Project

end Rnx
