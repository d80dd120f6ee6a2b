import Rnx.Project.Reuse

/-!
# Derived fingerprints are those of an independent run

On files that did not change, the tree that `derive` takes from the observation of an enclosing root
is the one `hash_files` finds below the nested root: the range of the parent's files that begin with
the name of the child and a slash is the child's inventory, in its order, and each file costs the
same.
-/

namespace Rnx

namespace Project

namespace Fingerprint

open ErrState PathText Partition

variable {blake3 : List UInt8 → Digest} {d : Disk} {S : Snapshot} {s t : Hashing}
  {root : PathBuf} {front : List Name}

/-! ## Entries -/

/-- Entries are taken from the allowance. -/
def enter (n : Nat) (s : Hashing) : Hashing :=
  { s with allowance := { s.allowance with entries := s.allowance.entries - n } }

lemma entries_run {α : Type} {l : List α} (h : l.length ≤ s.allowance.entries) :
    (l.forM fun _ => entry) s = (.ok (), enter l.length s) := by
  induction l generalizing s with
  | nil => rfl
  | cons a l ih =>
    rw [List.length_cons] at h
    have hentry : entry s = (.ok (), enter 1 s) := by
      unfold entry
      rw [run_get_bind, run_guardWith_bind (by omega)]
      rfl
    have hrest := ih (s := enter 1 s) (show _ ≤ s.allowance.entries - 1 by omega)
    refine (run_bind hentry).trans (hrest.trans ?_)
    unfold enter
    dsimp only
    rw [Nat.sub_sub, List.length_cons, Nat.add_comm]

lemma entries_error {α : Type} {l : List α} (h : s.allowance.entries < l.length) :
    ∃ e t, (l.forM fun _ => entry) s = (.error e, t) := by
  induction l generalizing s with
  | nil => exact absurd h (Nat.not_lt_zero _)
  | cons a l ih =>
    rw [List.length_cons] at h
    by_cases hzero : 1 ≤ s.allowance.entries
    · have hentry : entry s = (.ok (), enter 1 s) := by
        unfold entry
        rw [run_get_bind, run_guardWith_bind hzero]
        rfl
      obtain ⟨e, t, hrest⟩ := ih (s := enter 1 s) (show s.allowance.entries - 1 < _ by omega)
      exact ⟨e, t, (run_bind hentry).trans hrest⟩
    · have hentry : entry s = (.error ⟨none, "fingerprint exceeds entry allowance"⟩, s) := by
        unfold entry
        rw [run_get_bind]
        unfold guardWith
        rw [if_neg hzero]
        rfl
      exact ⟨_, _, run_bind_error hentry⟩

/-! ## A file below the child -/

/-- A file below the child, by its names there and its metadata, as the parent lists it. -/
def listed (front : List Name) (w : List Name × Metadata) : (List UInt8 × PathBuf) × Metadata :=
  ((spell (front ++ w.1), (front ++ w.1).map .normal), w.2)

/-- A file below the child that the parent has hashed. -/
structure Nested (S : Snapshot) (root : PathBuf) (front : List Name) (w : List Name × Metadata) :
    Prop where
  ne : w.1 ≠ []
  admitted : ∀ n ∈ w.1, Admitted n
  fits : (spell (front ++ w.1)).length < 2 ^ 63
  readable : Readable S root ((front ++ w.1).map .normal) w.2

/-- The record of such a file below the child. -/
def nestedRecord (blake3 : List UInt8 → Digest) (S : Snapshot) (root : PathBuf) (front : List Name)
    (w : List Name × Metadata) : Record :=
  recordOf blake3 S (join (root ++ front.map .normal) (w.1.map .normal)) (spell w.1) w.2

/-- What the parent recorded of it. -/
def recordedFile (blake3 : List UInt8 → Digest) (S : Snapshot) (root : PathBuf)
    (z : (List UInt8 × PathBuf) × Metadata) : File :=
  (recordOf blake3 S (join root z.1.2) z.1.1 z.2).file

variable {w : List Name × Metadata}

lemma join_nested : join (root ++ front.map .normal) (w.1.map .normal) =
    join root ((front ++ w.1).map .normal) := by
  rw [join_normal, join_normal, List.map_append, List.append_assoc]

lemma Nested.child (h : Nested S root front w) :
    Readable S (root ++ front.map .normal) (w.1.map .normal) w.2 := by
  have hlinks := h.readable.links
  rw [List.map_append, linkless_append] at hlinks
  refine ⟨hlinks.2, ?_, h.readable.isFile, ?_⟩
  · rw [join_nested]
    exact h.readable.stat
  · rw [join_nested]
    exact h.readable.opens

lemma Nested.spell_eq (hfront : front ≠ []) (h : Nested S root front w) :
    spell (front ++ w.1) = (spell front ++ [slash]) ++ spell w.1 := by
  rw [spell_append hfront h.ne, List.append_assoc]
  rfl

lemma Nested.text_eq (hfront : front ≠ []) (h : Nested S root front w) :
    text (w.1.map .normal) = .ok (spell w.1) := by
  refine text_iff.2 ⟨w.1, h.ne, rfl, h.admitted, ?_, rfl⟩
  have hfits := h.fits
  rw [h.spell_eq hfront, List.length_append] at hfits
  omega

lemma components_recorded (hfront : front ≠ []) (h : Nested S root front w) :
    components (spell (front ++ w.1)) = (front ++ w.1).map .normal ∧
      components ((spell (front ++ w.1)).drop (spell front ++ [slash]).length) =
        w.1.map .normal := by
  constructor
  · exact components_spell (List.append_ne_nil_of_left_ne_nil hfront _)
  · rw [h.spell_eq hfront, List.drop_left, components_spell h.ne]

/-! ## The range of the parent -/

variable {ws : List (List Name × Metadata)}

/-- The recorded files of the range, with what was observed of them. -/
def recordedRange (blake3 : List UInt8 → Digest) (S : Snapshot) (root : PathBuf) (front : List Name)
    (ws : List (List Name × Metadata)) : List (File × Metadata) :=
  ws.map fun w => (recordedFile blake3 S root (listed front w), w.2)

/-- The total length of the files below the child. -/
def nestedLength (ws : List (List Name × Metadata)) : Nat := totalLength (ws.map Prod.snd)

lemma chargeBytes_run {n : Nat} (h : n ≤ s.allowance.bytes) :
    chargeBytes n s = (.ok (), spend n s) := by
  unfold chargeBytes
  rw [run_get_bind, run_guardWith_bind h]
  rfl

lemma observed_recorded (hfront : front ≠ []) (hw : Nested S root front w) :
    observed S.stat (join root (components (spell (front ++ w.1)))) = .ok (some w.2) := by
  unfold observed
  rw [(components_recorded hfront hw).1, hw.readable.stat]

/-- A file of the range is charged and renamed. -/
lemma reuseFiles_cons (hfront : front ≠ []) (hw : Nested S root front w)
    (rest : List (File × Metadata)) (hle : w.2.len ≤ s.allowance.bytes) :
    reuseFiles S.stat root (spell front ++ [slash]).length
      ((recordedFile blake3 S root (listed front w), w.2) :: rest) s =
    (reuseFiles S.stat root (spell front ++ [slash]).length rest >>= fun files =>
      pure ((nestedRecord blake3 S root front w).file :: files)) (spend w.2.len s) := by
  have hfile : { recordedFile blake3 S root (listed front w) with path := spell w.1 } =
      (nestedRecord blake3 S root front w).file := by
    unfold nestedRecord
    rw [join_nested]
    rfl
  conv_lhs => unfold reuseFiles
  dsimp only
  rw [show (recordedFile blake3 S root (listed front w)).path = spell (front ++ w.1) from rfl,
    show (recordedFile blake3 S root (listed front w)).bytes = w.2.len from rfl,
    observed_recorded hfront hw, run_ofExcept_bind, run_guardWith_bind rfl, run_get_bind,
    run_guardWith_bind hle, run_bind (chargeBytes_run hle), (components_recorded hfront hw).2,
    hw.text_eq hfront, run_ofExcept_bind, ← hfile]
  rfl

lemma reuseFiles_refused (hfront : front ≠ []) (hw : Nested S root front w)
    (rest : List (File × Metadata)) (hlt : s.allowance.bytes < w.2.len) :
    ∃ e t, reuseFiles S.stat root (spell front ++ [slash]).length
      ((recordedFile blake3 S root (listed front w), w.2) :: rest) s = (.error e, t) := by
  unfold reuseFiles
  dsimp only
  rw [show (recordedFile blake3 S root (listed front w)).path = spell (front ++ w.1) from rfl,
    show (recordedFile blake3 S root (listed front w)).bytes = w.2.len from rfl,
    observed_recorded hfront hw, run_ofExcept_bind, run_guardWith_bind rfl, run_get_bind]
  unfold guardWith
  rw [if_neg (Nat.not_le_of_lt hlt)]
  exact ⟨_, _, rfl⟩

lemma nestedLength_cons (w : List Name × Metadata) (ws : List (List Name × Metadata)) :
    nestedLength (w :: ws) = w.2.len + nestedLength ws := totalLength_cons _ _

lemma reuseFiles_run (hfront : front ≠ []) (hws : ∀ w ∈ ws, Nested S root front w)
    (hle : nestedLength ws ≤ s.allowance.bytes) :
    reuseFiles S.stat root (spell front ++ [slash]).length (recordedRange blake3 S root front ws) s =
      (.ok ((ws.map (nestedRecord blake3 S root front)).map Record.file),
        spend (nestedLength ws) s) := by
  induction ws generalizing s with
  | nil => rfl
  | cons w ws ih =>
    obtain ⟨hw, hws⟩ := List.forall_mem_cons.1 hws
    rw [nestedLength_cons] at hle
    have hrest := ih (s := spend w.2.len s) hws (show _ ≤ s.allowance.bytes - w.2.len by omega)
    refine (reuseFiles_cons hfront hw _ (by omega)).trans ((run_bind hrest).trans ?_)
    rw [spend_spend, nestedLength_cons]
    rfl

lemma reuseFiles_error (hfront : front ≠ []) (hws : ∀ w ∈ ws, Nested S root front w)
    (hlt : s.allowance.bytes < nestedLength ws) :
    ∃ e t, reuseFiles S.stat root (spell front ++ [slash]).length
      (recordedRange blake3 S root front ws) s = (.error e, t) := by
  induction ws generalizing s with
  | nil => exact absurd hlt (Nat.not_lt_zero _)
  | cons w ws ih =>
    obtain ⟨hw, hws⟩ := List.forall_mem_cons.1 hws
    rw [nestedLength_cons] at hlt
    by_cases hle : w.2.len ≤ s.allowance.bytes
    · obtain ⟨e, t, hrest⟩ := ih (s := spend w.2.len s) hws
        (show s.allowance.bytes - w.2.len < _ by omega)
      exact ⟨e, t, (reuseFiles_cons hfront hw _ hle).trans (run_bind_error hrest)⟩
    · exact reuseFiles_refused hfront hw _ (Nat.lt_of_not_le hle)

/-- The recorded digests give the frames of the records. -/
lemma reuseStream_records (records : List Record) :
    reuseStream (records.map Record.file) = .ok (records.flatMap Record.frame) := by
  induction records with
  | nil => rfl
  | cons r records ih =>
    rw [List.map_cons, List.flatMap_cons]
    unfold reuseStream
    rw [ih, show r.file.blake3 = r.digest.toHex from rfl, Digest.fromHex_toHex]
    unfold Record.frame
    simp only [List.append_assoc]
    rfl

/-! ## The derivation -/

/-- What the parent has hashed, in the order of the names: each file with its metadata. -/
structure Listing (S : Snapshot) (root : PathBuf)
    (l : List ((List UInt8 × PathBuf) × Metadata)) : Prop where
  names : ∀ z ∈ l, text z.1.2 = .ok z.1.1
  sorted : l.Pairwise fun y z => y.1.1 < z.1.1
  readable : ∀ z ∈ l, Readable S root z.1.2 z.2

/-- The observation of it. -/
def observation (blake3 : List UInt8 → Digest) (S : Snapshot) (root : PathBuf) (digest : String)
    (l : List ((List UInt8 × PathBuf) × Metadata)) : Observation :=
  ⟨⟨root, digest, l.map (recordedFile blake3 S root)⟩, l.map Prod.snd⟩

variable {l : List ((List UInt8 × PathBuf) × Metadata)} {digest : String}

/-- The range that `derive` looks up holds the files below the child. -/
lemma range_eq (blake3 : List UInt8 → Digest) (digest : String) (hl : Listing S root l)
    (below : List UInt8)
    (hws : l.filter (fun z => below.isPrefixOf z.1.1) = ws.map (listed front)) :
    let parent := observation blake3 S root digest l
    let start := partitionPoint (fun f => decide (f.path < below)) parent.tree.files
    let count := partitionPoint (fun f => below.isPrefixOf f.path) (parent.tree.files.drop start)
    count = ws.length ∧
      ((parent.tree.files.zip parent.files).drop start).take count =
        recordedRange blake3 S root front ws := by
  have hslice := slice_eq (p := fun z => decide (z.1.1 < below))
    (q := fun z : (List UInt8 × PathBuf) × Metadata => below.isPrefixOf z.1.1) hl.sorted
    (fun y z hyz hz => by simpa using hyz.trans (by simpa using hz))
    (fun y z hyz hy hz => by
      rw [decide_eq_false_iff_not] at hy
      obtain ⟨t, ht⟩ := List.isPrefixOf_iff_prefix.1 hz
      exact List.isPrefixOf_iff_prefix.2 (Bytes.prefix_of_lt hy (ht ▸ hyz)))
    (fun y hy => decide_eq_false (Bytes.not_lt_of_prefix (List.isPrefixOf_iff_prefix.1 hy)))
  rw [hws, List.length_map] at hslice
  obtain ⟨htake, hcount⟩ := hslice
  have hstart : partitionPoint (fun f : File => decide (f.path < below))
      (l.map (recordedFile blake3 S root)) =
      partitionPoint (fun z => decide (z.1.1 < below)) l := partitionPoint_map _ _
  have hstop : ∀ k, partitionPoint (fun f : File => below.isPrefixOf f.path)
      ((l.map (recordedFile blake3 S root)).drop k) =
      partitionPoint (fun z => below.isPrefixOf z.1.1) (l.drop k) := by
    intro k
    rw [← List.map_drop]
    exact partitionPoint_map _ _
  unfold observation
  dsimp only
  rw [hstart, hstop, hcount]
  refine ⟨rfl, ?_⟩
  rw [List.zip_map', ← List.map_drop, ← List.map_take, ← hcount, htake, List.map_map]
  rfl

/-- What the allowance has to cover for the files below the child. -/
def Covers (s : Hashing) (ws : List (List Name × Metadata)) : Prop :=
  ws ≠ [] ∧ ws.length ≤ s.allowance.entries ∧ nestedLength ws ≤ s.allowance.bytes

/-- The tree below the child. -/
def nestedTree (blake3 : List UInt8 → Digest) (S : Snapshot) (root : PathBuf) (front : List Name)
    (ws : List (List Name × Metadata)) : Tree :=
  treeOf blake3 (root ++ front.map .normal) (ws.map (nestedRecord blake3 S root front))

section

variable (hl : Listing S root l) (hfront : front ≠ [])
  (htext : text (front.map .normal) = .ok (spell front))
  (hws : l.filter (fun z => (spell front ++ [slash]).isPrefixOf z.1.1) = ws.map (listed front))
  (hnested : ∀ w ∈ ws, Nested S root front w)

include hl htext hws in
/-- `derive` after the range is looked up. -/
lemma derive_eq : derive blake3 S.stat (observation blake3 S root digest l)
    (root ++ front.map .normal) s =
    ((List.range' (partitionPoint (fun f => decide (f.path < spell front ++ [slash]))
        (observation blake3 S root digest l).tree.files) ws.length).forM (fun _ => entry) >>=
      fun _ => reuseFiles S.stat root (spell front ++ [slash]).length
        (recordedRange blake3 S root front ws) >>= fun files =>
      guardWith (files ≠ []) (failAt (root ++ front.map .normal)
        "native root has no tracked files") >>= fun _ =>
      ofExcept (reuseStream files) >>= fun stream =>
      pure ⟨root ++ front.map .normal, (blake3 (treeHeader ++ stream)).toHex, files⟩) s := by
  obtain ⟨hcount, hrange⟩ := range_eq blake3 digest hl _ hws
  unfold derive
  rw [show (root ++ front.map Component.normal).drop
    (observation blake3 S root digest l).tree.root.length = front.map .normal from List.drop_left,
    htext, run_ofExcept_bind, hrange, hcount]
  rfl

include hl hfront htext hws hnested in
lemma derive_run (h : Covers s ws) : derive blake3 S.stat (observation blake3 S root digest l)
    (root ++ front.map .normal) s = (.ok (nestedTree blake3 S root front ws),
      spend (nestedLength ws) (enter ws.length s)) := by
  obtain ⟨hne, hentries, hbytes⟩ := h
  have hfiles : (ws.map (nestedRecord blake3 S root front)).map Record.file ≠ [] := by
    rwa [ne_eq, List.map_eq_nil_iff, List.map_eq_nil_iff]
  have hreuse : reuseFiles S.stat root _ (recordedRange blake3 S root front ws)
      (enter ws.length s) = _ := reuseFiles_run hfront hnested hbytes
  rw [derive_eq hl htext hws, run_bind (entries_run (by rwa [List.length_range'])),
    List.length_range', run_bind hreuse, run_guardWith_bind hfiles, reuseStream_records,
    run_ofExcept_bind]
  rfl

include hl hfront htext hws hnested in
lemma derive_error (h : ¬ Covers s ws) : ∃ e t, derive blake3 S.stat
    (observation blake3 S root digest l) (root ++ front.map .normal) s = (.error e, t) := by
  rw [derive_eq hl htext hws]
  by_cases hentries : ws.length ≤ s.allowance.entries
  · rw [run_bind (entries_run (by rwa [List.length_range'])), List.length_range']
    by_cases hbytes : nestedLength ws ≤ s.allowance.bytes
    · have hnil : ws = [] := by
        by_contra hne
        exact h ⟨hne, hentries, hbytes⟩
      have hreuse : reuseFiles S.stat root _ (recordedRange blake3 S root front ws)
          (enter ws.length s) = _ := reuseFiles_run hfront hnested hbytes
      rw [run_bind hreuse, hnil]
      exact ⟨_, _, rfl⟩
    · have hreuse : ∃ e t, reuseFiles S.stat root _ (recordedRange blake3 S root front ws)
          (enter ws.length s) = (.error e, t) :=
        reuseFiles_error hfront hnested (Nat.lt_of_not_le hbytes)
      obtain ⟨e, t, hreuse⟩ := hreuse
      exact ⟨e, t, run_bind_error hreuse⟩
  · obtain ⟨e, t, hrun⟩ := entries_error (s := s) (l := List.range' (partitionPoint
      (fun f => decide (f.path < spell front ++ [slash]))
      (observation blake3 S root digest l).tree.files) ws.length)
      (by rw [List.length_range']; exact Nat.lt_of_not_le hentries)
    exact ⟨e, t, run_bind_error hrun⟩

end

/-! ## The independent run -/

/-- The child's own inventory. -/
def childEntry (w : List Name × Metadata) : List UInt8 × PathBuf := (spell w.1, w.1.map .normal)

lemma recordsOf_nested : recordsOf blake3 S (root ++ front.map .normal) (ws.map childEntry)
    (ws.map Prod.snd) = ws.map (nestedRecord blake3 S root front) := by
  unfold recordsOf
  rw [List.zipWith_map, List.zipWith_self]
  rfl

lemma readable_nested (hnested : ∀ w ∈ ws, Nested S root front w) :
    List.Forall₂ (fun p m => Readable S (root ++ front.map .normal) p.2 m) (ws.map childEntry)
      (ws.map Prod.snd) := by
  induction ws with
  | nil => exact .nil
  | cons w ws ih =>
    obtain ⟨hw, hws⟩ := List.forall_mem_cons.1 hnested
    exact .cons hw.child (ih hws)

section

variable (hd : Presents d S) (hnested : ∀ w ∈ ws, Nested S root front w) {paths : List PathBuf}
  (hinventory : inventory paths [] = .ok (ws.map childEntry)) (hlength : paths.length = ws.length)

include hd hnested hinventory hlength in
lemma native_run (h : Covers s ws) : native blake3 d (root ++ front.map .normal) paths s =
    (.ok (nestedTree blake3 S root front ws),
      hashedAll (ws.map (nestedRecord blake3 S root front)) (ws.map Prod.snd)
        { enter ws.length s with tree := some treeHeader }) := by
  obtain ⟨hne, hentries, hbytes⟩ := h
  have hpaths : paths ≠ [] := by
    rintro rfl
    exact hne (List.length_eq_zero_iff.1 hlength.symm)
  have hhash : hashFiles blake3 d (root ++ front.map .normal) paths (enter ws.length s) = _ :=
    hashFiles_run hd hinventory (readable_nested hnested) hbytes
  unfold native
  rw [run_bind (entries_run (by rwa [hlength])), hlength, run_guardWith_bind hpaths, hhash,
    recordsOf_nested]
  rfl

include hd hnested hinventory hlength in
lemma native_error (h : ¬ Covers s ws) :
    ∃ e t, native blake3 d (root ++ front.map .normal) paths s = (.error e, t) := by
  unfold native
  by_cases hentries : ws.length ≤ s.allowance.entries
  · rw [run_bind (entries_run (by rwa [hlength]))]
    by_cases hpaths : paths ≠ []
    · rw [run_guardWith_bind hpaths]
      refine hashFiles_error hd hinventory (readable_nested hnested) ?_
      by_contra hle
      refine h ⟨?_, hentries, Nat.le_of_not_lt hle⟩
      rintro rfl
      exact hpaths (List.length_eq_zero_iff.1 hlength)
    · unfold guardWith
      rw [if_neg hpaths]
      exact ⟨_, _, rfl⟩
  · obtain ⟨e, t, hrun⟩ := entries_error (s := s) (l := paths)
      (by rw [hlength]; exact Nat.lt_of_not_le hentries)
    exact ⟨e, t, run_bind_error hrun⟩

end

end Fingerprint

end Project

end Rnx
