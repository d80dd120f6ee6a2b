import Rnx.Lib.Framing
import Rnx.Project.Fingerprint

/-!
# The encoding of a tree

What `hash_files` feeds to the hash of a tree is its header and then one record a file: the length
of the name, the name, the executable bit, the length of the file and the digest of its content.  A
record ends where its own lengths say, so the stream determines the records, although it has
neither a count of them nor anything between them.
-/

namespace Rnx

namespace Project

namespace Fingerprint

open ErrState PathText

/-! ## Records -/

/-- What the stream says of a file. -/
structure Record where
  name : List UInt8
  executable : Bool
  len : Nat
  digest : Digest

/-- The file of a record. -/
def Record.file (r : Record) : File := ⟨r.name, r.executable, r.len, r.digest.toHex⟩

/-- The bytes of a record. -/
def Record.frame (r : Record) : List UInt8 :=
  (BigEndian.toBytes 8 r.name.length ++ r.name) ++
    ([flag r.executable] ++ (BigEndian.toBytes 8 r.len ++ r.digest.bytes))

/-- The lengths of a record fit their fields. -/
def Record.Fits (r : Record) : Prop := r.name.length < 256 ^ 8 ∧ r.len < 256 ^ 8

end Fingerprint

end Project

end Rnx
