import Mathlib.Algebra.BigOperators.Group.List.Basic
import Mathlib.Algebra.GroupWithZero.Nat
import Rnx.Project.Names
import Rnx.Project.TreeFraming

/-!
# Hashing files that do not change

A disk presents a snapshot when every call is answered by it; only how much a read returns at a
time is left open.  What `hash_file` does there is a function of the snapshot and the allowance: it
returns when the file can be read and its length is within the allowance, and takes just the length.
-/

namespace Rnx

namespace Project

namespace Fingerprint

open ErrState PathText

/-- A state of the file system. -/
structure Snapshot where
  stat : PathBuf → Except IoError Metadata
  opens : PathBuf → Except IoError Unit
  content : PathBuf → List UInt8
  content_length : ∀ path m, stat path = .ok m → m.isFile = true → (content path).length = m.len

/-- The disk answers by the snapshot.  A read returns part of what is left, and nothing only when
nothing is left or asked for. -/
structure Presents (d : Disk) (S : Snapshot) : Prop where
  link : ∀ file path, d.link file path = S.stat path
  before : ∀ path, d.before path = S.stat path
  opened : ∀ path, d.opened path = (S.opens path).bind fun _ => S.stat path
  ended : ∀ path, d.ended path = S.stat path
  after : ∀ path, d.after path = S.stat path
  read : ∀ path, S.opens path = .ok () → ∀ offset size, ∃ bytes, d.read path offset size = .ok bytes ∧
    bytes <+: (S.content path).drop offset ∧
    (bytes = [] → size = 0 ∨ (S.content path).length ≤ offset)

/-- No part of the path, from a place on, is a link. -/
def Linkless (S : Snapshot) (path : PathBuf) : List Component → Prop
  | [] => True
  | c :: rest => (∃ m, S.stat (path ++ [c]) = .ok m ∧ m.isSymlink = false) ∧
      Linkless S (path ++ [c]) rest

/-- A file that can be hashed. -/
structure Readable (S : Snapshot) (root relative : PathBuf) (m : Metadata) : Prop where
  links : Linkless S root relative
  stat : S.stat (join root relative) = .ok m
  isFile : m.isFile = true
  opens : S.opens (join root relative) = .ok ()

variable {blake3 : List UInt8 → Digest} {d : Disk} {S : Snapshot} {s t : Hashing}
  {root relative path : PathBuf} {name : List UInt8} {m : Metadata}

lemma linkless_append {front rest : List Component} :
    Linkless S path (front ++ rest) ↔ Linkless S path front ∧ Linkless S (path ++ front) rest := by
  induction front generalizing path with
  | nil =>
    rw [List.append_nil]
    exact ⟨fun h => ⟨trivial, h⟩, fun h => h.2⟩
  | cons c front ih =>
    show _ ∧ Linkless S (path ++ [c]) (front ++ rest) ↔ (_ ∧ Linkless S (path ++ [c]) front) ∧ _
    rw [ih, List.append_assoc, and_assoc]
    rfl

/-! ## Calls -/

section

variable {α β : Type} {r : Except IoError α} {k : α → ErrState Failure Hashing β} {a : α}
  {R : β → Hashing → Prop}

lemma run_io_bind (h : r = .ok a) : (io path r >>= k) s = k a s := by
  rw [h]
  rfl

lemma wp_io_bind (h : ∀ a, r = .ok a → wp (k a) R (fun _ _ => True) s) :
    wp (io path r >>= k) R (fun _ _ => True) s := by
  refine wp_ofExcept_bind (fun _ _ => trivial) fun a ha => h a ?_
  cases r with
  | error e => cases ha
  | ok b =>
    cases ha
    rfl

/-- What holds anyway holds after a computation. -/
lemma wp_const {m : ErrState Failure Hashing α} {p : Prop} (h : p) :
    wp m (fun _ _ => p) (fun _ _ => True) s := by
  unfold wp
  rcases m s with ⟨e | a, t⟩
  · trivial
  · exact h

lemma run_guardWith_bind {c : Prop} [Decidable c] {e : Failure}
    {k : Unit → ErrState Failure Hashing β} (h : c) : (guardWith c e >>= k) s = k () s := by
  unfold guardWith
  rw [if_pos h]
  rfl

end

lemma componentsNoLinks_run (hd : Presents d S) (file : PathBuf) {rest : List Component}
    (h : Linkless S path rest) : componentsNoLinks d file path rest s = (.ok (), s) := by
  induction rest generalizing path with
  | nil => rfl
  | cons c rest ih =>
    obtain ⟨⟨m', hstat, hlink⟩, hrest⟩ := h
    unfold componentsNoLinks
    rw [run_io_bind (by rw [hd.link, hstat]), run_guardWith_bind hlink]
    exact ih hrest

lemma wp_componentsNoLinks (hd : Presents d S) (file : PathBuf) (rest : List Component) :
    wp (componentsNoLinks d file path rest) (fun _ t => t = s ∧ Linkless S path rest)
      (fun _ _ => True) s := by
  induction rest generalizing path with
  | nil => exact ⟨rfl, trivial⟩
  | cons c rest ih =>
    refine wp_io_bind fun m' hm' => wp_guardWith_bind (fun _ => trivial) fun hlink => ?_
    rw [hd.link] at hm'
    exact wp_mono ih (fun _ _ ht => ⟨ht.1, ⟨m', hm', hlink⟩, ht.2⟩) fun _ _ h => h

lemma regular_run (hd : Presents d S) (hstat : S.stat path = .ok m) (hfile : m.isFile = true) :
    regular d path s = (.ok m, s) := by
  unfold regular
  rw [run_io_bind (by rw [hd.before, hstat]), run_guardWith_bind hfile]
  rfl

lemma spend_spend (n n' : Nat) (s : Hashing) : spend n (spend n' s) = spend (n' + n) s := by
  unfold spend
  dsimp only
  rw [Nat.sub_sub]

lemma wp_regular (hd : Presents d S) : wp (regular d path)
    (fun m t => t = s ∧ S.stat path = .ok m ∧ m.isFile = true) (fun _ _ => True) s := by
  refine wp_io_bind fun m hm => wp_guardWith_bind (fun _ => trivial) fun hfile => ?_
  rw [hd.before] at hm
  exact ⟨rfl, hm, hfile⟩

/-- A file is read to its end, and its length is taken from the allowance. -/
lemma readContent_run (hd : Presents d S) (hopens : S.opens path = .ok ()) {remaining : Nat}
    {content : List UInt8} (hle : remaining ≤ (S.content path).length) :
    readContent d path (S.content path).length remaining content s =
      (.ok (content ++ (S.content path).drop ((S.content path).length - remaining)),
        spend remaining s) := by
  induction remaining using Nat.strong_induction_on generalizing content s with
  | h remaining ih =>
    rw [readContent]
    split_ifs with hzero
    · rw [hzero, Nat.sub_zero, List.drop_length, List.append_nil]
      rfl
    · obtain ⟨bytes, hread, hprefix, hend⟩ := hd.read path hopens
        ((S.content path).length - remaining) (min remaining 16384)
      have hsize := d.read_le _ _ _ _ hread
      have hne : bytes.length ≠ 0 := by
        intro hempty
        obtain h | h := hend (List.length_eq_zero_iff.1 hempty) <;> omega
      rw [run_io_bind hread, dif_neg hne, run_update_bind, ih _ (by omega) (by omega)]
      obtain ⟨tail, htail⟩ := hprefix
      have hdrop : (S.content path).drop ((S.content path).length - (remaining - bytes.length)) =
          tail := by
        rw [show (S.content path).length - (remaining - bytes.length) =
          ((S.content path).length - remaining) + bytes.length by omega, ← List.drop_drop, ← htail,
          List.drop_left]
      rw [hdrop, List.append_assoc, htail, spend_spend, Nat.add_sub_cancel' (by omega)]

lemma readContent_whole (hd : Presents d S) (hopens : S.opens path = .ok ())
    (hlen : (S.content path).length = m.len) :
    readContent d path m.len m.len [] s = (.ok (S.content path), spend m.len s) := by
  rw [← hlen, readContent_run hd hopens le_rfl, Nat.sub_self]
  rfl

/-- An unchanged file has no byte after its end. -/
lemma detect_run (hd : Presents d S) (hstat : S.stat path = .ok m) (hopens : S.opens path = .ok ())
    (hlen : (S.content path).length = m.len) : detect d path m s = (.ok (), s) := by
  unfold detect
  rw [run_get_bind]
  split_ifs with hzero
  · rw [run_io_bind (by rw [hd.ended, hstat])]
    unfold guardWith
    rw [if_pos rfl]
    rfl
  · obtain ⟨bytes, hread, hprefix, -⟩ := hd.read path hopens m.len 1
    obtain rfl : bytes = [] := by
      rw [List.drop_eq_nil_of_le (le_of_eq hlen)] at hprefix
      exact List.prefix_nil.1 hprefix
    rw [run_io_bind hread, run_update_bind]
    rfl

/-- The record of a file. -/
def recordOf (blake3 : List UInt8 → Digest) (S : Snapshot) (path : PathBuf) (name : List UInt8)
    (m : Metadata) : Record :=
  ⟨name, m.executable, m.len, blake3 (S.content path)⟩

/-- The state after a file is hashed. -/
def hashed (record : Record) (m : Metadata) (s : Hashing) : Hashing :=
  { spend m.len s with
    tree := s.tree.map (· ++ record.frame)
    observed := s.observed ++ [m] }

/-- A file that can be read and is within the allowance is hashed. -/
lemma hashFile_run (hd : Presents d S) (h : Readable S root relative m)
    (hlen : m.len ≤ s.allowance.bytes) :
    hashFile blake3 d root relative name s =
      (.ok ((recordOf blake3 S (join root relative) name m).file, m, m),
        hashed (recordOf blake3 S (join root relative) name m) m s) := by
  have hcontent := S.content_length _ _ h.stat h.isFile
  unfold hashFile
  rw [run_bind (componentsNoLinks_run hd _ h.links), run_bind (regular_run hd h.stat h.isFile),
    run_get_bind, run_guardWith_bind hlen,
    run_io_bind (by rw [hd.opened, h.opens, h.stat]; rfl), run_guardWith_bind ⟨h.isFile, rfl, rfl⟩,
    run_update_bind, run_update_bind, run_update_bind, run_update_bind,
    run_bind (readContent_whole hd h.opens hcontent),
    run_bind (detect_run hd h.stat h.opens hcontent),
    run_io_bind (by rw [hd.after, h.stat]), run_guardWith_bind ⟨rfl, rfl⟩, run_update_bind,
    run_update_bind]
  unfold hashed Record.frame feed spend
  simp only [Option.map_map, Function.comp_def, List.append_assoc]
  rfl

/-- A file that is hashed can be read and is within the allowance. -/
lemma hashFile_readable (hd : Presents d S) {r : File × Metadata × Metadata}
    (h : hashFile blake3 d root relative name s = (.ok r, t)) :
    ∃ m, Readable S root relative m ∧ m.len ≤ s.allowance.bytes := by
  have hwp : wp (hashFile blake3 d root relative name)
      (fun _ _ => ∃ m, Readable S root relative m ∧ m.len ≤ s.allowance.bytes)
      (fun _ _ => True) s := by
    refine wp_seq (wp_componentsNoLinks hd _ _) (fun _ _ h => h) fun _ t ht => ?_
    obtain ⟨rfl, hlinks⟩ := ht
    refine wp_seq (wp_regular hd) (fun _ _ h => h) fun m u hu => ?_
    obtain ⟨rfl, hstat, hfile⟩ := hu
    refine wp_get_bind.2 (wp_guardWith_bind (fun _ => trivial) fun hle => ?_)
    refine wp_io_bind fun opened hopened => wp_const ⟨m, ⟨hlinks, hstat, hfile, ?_⟩, hle⟩
    rw [hd.opened] at hopened
    cases hopens : S.opens (join root relative) with
    | error e =>
      rw [hopens] at hopened
      cases hopened
    | ok _ => rfl
  exact (wp_run h hwp).1 _ rfl

/-- Whether a file is hashed is settled by the snapshot and the allowance. -/
lemma hashFile_error (hd : Presents d S) (h : Readable S root relative m)
    (hlen : s.allowance.bytes < m.len) :
    ∃ e t, hashFile blake3 d root relative name s = (.error e, t) := by
  rcases hrun : hashFile blake3 d root relative name s with ⟨e | r, t⟩
  · exact ⟨e, t, rfl⟩
  · obtain ⟨m', hm', hle⟩ := hashFile_readable hd hrun
    have hsame := h.stat.symm.trans hm'.stat
    cases hsame
    omega

/-! ## Inventories -/

/-- The records of files in order. -/
def recordsOf (blake3 : List UInt8 → Digest) (S : Snapshot) (root : PathBuf)
    (ordered : List (List UInt8 × PathBuf)) (ms : List Metadata) : List Record :=
  List.zipWith (fun p m => recordOf blake3 S (join root p.2) p.1 m) ordered ms

/-- The total length of files. -/
def totalLength (ms : List Metadata) : Nat := (ms.map Metadata.len).sum

/-- The state after files are hashed. -/
def hashedAll (records : List Record) (ms : List Metadata) (s : Hashing) : Hashing :=
  { spend (totalLength ms) s with
    tree := s.tree.map (· ++ records.flatMap Record.frame)
    observed := s.observed ++ ms }

lemma totalLength_cons (m : Metadata) (ms : List Metadata) :
    totalLength (m :: ms) = m.len + totalLength ms := List.sum_cons

lemma hashedAll_nil (s : Hashing) : hashedAll [] [] s = s := by
  have htree : s.tree.map (· ++ []) = s.tree := by
    cases s.tree with
    | none => rfl
    | some bytes => exact congrArg some (List.append_nil bytes)
  unfold hashedAll
  rw [List.append_nil]
  exact congrArg (fun tree => { s with tree := tree }) htree

lemma hashedAll_hashed (record : Record) (records : List Record) (m : Metadata)
    (ms : List Metadata) (s : Hashing) : hashedAll records ms (hashed record m s) =
      hashedAll (record :: records) (m :: ms) s := by
  unfold hashedAll hashed spend
  dsimp only
  rw [totalLength_cons, Nat.sub_sub, Option.map_map, List.append_assoc, List.flatMap_cons]
  simp only [Function.comp_def, List.append_assoc]
  rfl

variable {ordered : List (List UInt8 × PathBuf)} {ms : List Metadata}

lemma hashOrdered_run (hd : Presents d S)
    (h : List.Forall₂ (fun p m => Readable S root p.2 m) ordered ms)
    (hlen : totalLength ms ≤ s.allowance.bytes) :
    hashOrdered blake3 d root ordered s = (.ok ((recordsOf blake3 S root ordered ms).map Record.file),
      hashedAll (recordsOf blake3 S root ordered ms) ms s) := by
  induction h generalizing s with
  | nil =>
    show _ = (_, hashedAll [] [] s)
    rw [hashedAll_nil]
    rfl
  | @cons p m ordered ms hp _ ih =>
    rw [totalLength_cons] at hlen
    unfold hashOrdered
    rw [run_bind (hashFile_run hd hp (by omega))]
    have hrest := ih (s := hashed (recordOf blake3 S (join root p.2) p.1 m) m s) (by
      show _ ≤ s.allowance.bytes - m.len
      omega)
    rw [hashedAll_hashed] at hrest
    exact run_bind hrest

lemma hashOrdered_error (hd : Presents d S)
    (h : List.Forall₂ (fun p m => Readable S root p.2 m) ordered ms)
    (hlen : s.allowance.bytes < totalLength ms) :
    ∃ e t, hashOrdered blake3 d root ordered s = (.error e, t) := by
  induction h generalizing s with
  | nil => exact absurd hlen (Nat.not_lt_zero _)
  | @cons p m ordered ms hp _ ih =>
    rw [totalLength_cons] at hlen
    unfold hashOrdered
    by_cases hle : m.len ≤ s.allowance.bytes
    · rw [run_bind (hashFile_run hd hp hle)]
      obtain ⟨e, t, hrest⟩ := ih (s := hashed (recordOf blake3 S (join root p.2) p.1 m) m s) (by
        show s.allowance.bytes - m.len < _
        omega)
      exact ⟨e, t, run_bind_error hrest⟩
    · obtain ⟨e, t, hfile⟩ := hashFile_error hd hp (Nat.lt_of_not_le hle)
      exact ⟨e, t, run_bind_error hfile⟩

/-- Files that are hashed can all be read. -/
lemma hashOrdered_readable (hd : Presents d S) {files : List File}
    (h : hashOrdered blake3 d root ordered s = (.ok files, t)) :
    ∃ ms, List.Forall₂ (fun p m => Readable S root p.2 m) ordered ms ∧
      totalLength ms ≤ s.allowance.bytes := by
  induction ordered generalizing s t files with
  | nil => exact ⟨[], .nil, Nat.zero_le _⟩
  | cons p ordered ih =>
    unfold hashOrdered at h
    obtain ⟨r, u, hfile, h⟩ := exists_of_bind_ok h
    obtain ⟨m, hm, hle⟩ := hashFile_readable hd hfile
    have hrun : hashFile blake3 d root p.2 p.1 s = _ := hashFile_run hd hm hle
    rw [hfile] at hrun
    cases hrun
    obtain ⟨files', v, hrest, -⟩ := exists_of_bind_ok h
    obtain ⟨ms, hms, htotal⟩ := ih hrest
    refine ⟨m :: ms, .cons hm hms, ?_⟩
    have hle' : totalLength ms ≤ s.allowance.bytes - m.len := htotal
    rw [totalLength_cons]
    omega

/-- The tree of files that can be read and are within the allowance. -/
def treeOf (blake3 : List UInt8 → Digest) (root : PathBuf) (records : List Record) : Tree :=
  ⟨root, (blake3 (treeHeader ++ records.flatMap Record.frame)).toHex, records.map Record.file⟩

lemma hashFiles_run (hd : Presents d S) {paths : List PathBuf}
    (hordered : inventory paths [] = .ok ordered)
    (h : List.Forall₂ (fun p m => Readable S root p.2 m) ordered ms)
    (hlen : totalLength ms ≤ s.allowance.bytes) :
    hashFiles blake3 d root paths s =
      (.ok (treeOf blake3 root (recordsOf blake3 S root ordered ms)),
        hashedAll (recordsOf blake3 S root ordered ms) ms { s with tree := some treeHeader }) := by
  have hrun : hashOrdered blake3 d root ordered { s with tree := some treeHeader } = _ :=
    hashOrdered_run hd h hlen
  unfold hashFiles
  rw [hordered, run_ofExcept_bind, run_update_bind]
  exact run_bind hrun

lemma hashFiles_error (hd : Presents d S) {paths : List PathBuf}
    (hordered : inventory paths [] = .ok ordered)
    (h : List.Forall₂ (fun p m => Readable S root p.2 m) ordered ms)
    (hlen : s.allowance.bytes < totalLength ms) :
    ∃ e t, hashFiles blake3 d root paths s = (.error e, t) := by
  obtain ⟨e, t, hrun⟩ := hashOrdered_error (s := { s with tree := some treeHeader }) hd h hlen
  refine ⟨e, t, ?_⟩
  unfold hashFiles
  rw [hordered, run_ofExcept_bind, run_update_bind]
  exact run_bind_error hrun

/-- What a run that returns has hashed. -/
lemma hashFiles_readable (hd : Presents d S) {paths : List PathBuf} {tree : Tree}
    (h : hashFiles blake3 d root paths s = (.ok tree, t)) :
    ∃ ordered ms, inventory paths [] = .ok ordered ∧
      List.Forall₂ (fun p m => Readable S root p.2 m) ordered ms ∧
      totalLength ms ≤ s.allowance.bytes := by
  obtain ⟨ordered, u, hordered, h⟩ := exists_of_bind_ok h
  obtain ⟨hinventory, rfl⟩ : inventory paths [] = .ok ordered ∧ s = u := Prod.mk.inj hordered
  rw [run_update_bind] at h
  obtain ⟨files, v, hfiles, -⟩ := exists_of_bind_ok h
  obtain ⟨ms, hms, hlen⟩ := hashOrdered_readable hd hfiles
  exact ⟨ordered, ms, hinventory, hms, hlen⟩

/-! ## Empty files -/

/-- The metadata of an empty file. -/
def emptyFile : Metadata := ⟨0, 0, 0o100644, 0, 0, 0, by decide⟩

/-- A snapshot where every path is an empty file. -/
def emptyTree : Snapshot where
  stat _ := .ok emptyFile
  opens _ := .ok ()
  content _ := []
  content_length := by
    rintro _ _ ⟨⟩ _
    rfl

/-- A disk that presents it. -/
def emptyFiles : Disk where
  link _ _ := .ok emptyFile
  before _ := .ok emptyFile
  opened _ := .ok emptyFile
  read _ _ _ := .ok []
  ended _ := .ok emptyFile
  after _ := .ok emptyFile
  read_le := by
    rintro _ _ _ _ ⟨⟩
    exact Nat.zero_le _

lemma presents_emptyTree : Presents emptyFiles emptyTree where
  link _ _ := rfl
  before _ := rfl
  opened _ := rfl
  ended _ := rfl
  after _ := rfl
  read _ _ offset _ := ⟨[], rfl, List.nil_prefix, fun _ => .inr (Nat.zero_le offset)⟩

lemma linkless_emptyTree (path : PathBuf) (rest : List Component) :
    Linkless emptyTree path rest := by
  induction rest generalizing path with
  | nil => trivial
  | cons c rest ih => exact ⟨⟨emptyFile, rfl, by decide⟩, ih _⟩

lemma readable_emptyTree (root relative : PathBuf) : Readable emptyTree root relative emptyFile :=
  ⟨linkless_emptyTree _ _, rfl, by decide, rfl⟩

end Fingerprint

end Project

end Rnx
