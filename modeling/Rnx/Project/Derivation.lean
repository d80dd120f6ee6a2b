import Rnx.Project.NestedRoots
import Rnx.Project.TreeDigest

/-!
# Derived fingerprints and tracked lists

The tracked list of a nested root is that of the enclosing one, restricted to the directory.  The
observation of the enclosing root lists its files by name, and those of the directory are the ones
whose names begin with its name and a slash.
-/

namespace Rnx

namespace Project

namespace Fingerprint

open ErrState PathText

variable {blake3 : List UInt8 → Digest} {d d' : Disk} {S : Snapshot} {s t : Hashing}
  {root rel path : PathBuf} {paths : List PathBuf} {tree : Tree} {key : List UInt8}
  {l : List ((List UInt8 × PathBuf) × Metadata)} {front : List Name}
  {ws : List (List Name × Metadata)}

/-! ## What the parent observed -/

lemma wp_entries {α : Type} (l : List α) :
    wp (l.forM fun _ => entry) (fun _ t => t = enter l.length s) (fun _ _ => True) s := by
  by_cases h : l.length ≤ s.allowance.entries
  · unfold wp
    rw [entries_run h]
  · obtain ⟨e, t, hrun⟩ := entries_error (Nat.lt_of_not_le h)
    unfold wp
    rw [hrun]
    trivial

/-- A root that was hashed had its tracked files hashed. -/
lemma native_hashed (h : native blake3 d root paths s = (.ok tree, t)) :
    hashFiles blake3 d root paths (enter paths.length s) = (.ok tree, t) := by
  obtain ⟨_, u, hentries, h⟩ := exists_of_bind_ok h
  obtain rfl := (wp_run hentries (wp_entries paths)).1 _ rfl
  by_cases hne : paths ≠ []
  · rwa [run_guardWith_bind hne] at h
  · unfold guardWith at h
    rw [if_neg hne] at h
    cases h

lemma files_recordsOf (ordered : List (List UInt8 × PathBuf)) (ms : List Metadata) :
    (recordsOf blake3 S root ordered ms).map Record.file =
      (ordered.zip ms).map (recordedFile blake3 S root) := by
  unfold recordsOf
  rw [List.map_zipWith, List.map_zip_eq_zipWith]
  rfl

/-- What was observed of a root is a listing of its tracked files. -/
lemma native_observation (hd : Presents d S) (hs : s.observed = [])
    (h : native blake3 d root paths s = (.ok tree, t)) :
    ∃ l, Listing S root l ∧ (l.map fun z => z.1.2).Perm paths ∧
      (⟨tree, t.observed⟩ : Observation) = observation blake3 S root tree.blake3 l := by
  have hhash := native_hashed h
  obtain ⟨ordered, ms, hinventory, hreadable, hlen⟩ := hashFiles_readable hd hhash
  have hrun : hashFiles blake3 d root paths (enter paths.length s) = _ :=
    hashFiles_run hd hinventory hreadable hlen
  obtain ⟨htree, rfl⟩ := Prod.mk.inj (hhash.symm.trans hrun)
  obtain rfl := Except.ok.inj htree
  obtain ⟨hordered, hperm⟩ :=
    inventory_ok hinventory ⟨List.forall_mem_nil _, List.Pairwise.nil⟩
  have hfst : (ordered.zip ms).map Prod.fst = ordered :=
    List.map_fst_zip (le_of_eq hreadable.length_eq)
  have hsnd : (ordered.zip ms).map Prod.snd = ms :=
    List.map_snd_zip (le_of_eq hreadable.length_eq.symm)
  refine ⟨ordered.zip ms, ⟨fun z hz => ?_, ?_, fun z hz => ?_⟩, ?_, ?_⟩
  · exact hordered.names _ (List.of_mem_zip hz).1
  · have hsorted : ((ordered.zip ms).map Prod.fst).Pairwise fun a b => a.1 < b.1 := by
      rw [hfst]
      exact hordered.sorted
    rwa [List.pairwise_map] at hsorted
  · exact List.forall₂_zip hreadable hz
  · rw [List.map_nil, List.append_nil, ← hfst, List.map_map] at hperm
    exact hperm
  · unfold observation hashedAll treeOf
    rw [files_recordsOf, hsnd]
    dsimp only [enter, spend]
    rw [hs, List.nil_append]

/-! ## What is below the child -/

lemma below_eq_some {directory path rest : PathBuf} :
    below directory path = some rest ↔ rest ≠ [] ∧ path = directory ++ rest := by
  unfold below
  constructor
  · intro h
    split_ifs at h with hbelow
    obtain ⟨⟨tail, rfl⟩, hlt⟩ := hbelow
    obtain rfl := Option.some.inj h
    rw [List.drop_left]
    refine ⟨?_, rfl⟩
    rintro rfl
    rw [List.append_nil] at hlt
    exact lt_irrefl _ hlt
  · rintro ⟨hne, rfl⟩
    have hlt : directory.length < (directory ++ rest).length := by
      rw [List.length_append]
      exact Nat.lt_add_of_pos_right (List.length_pos_iff.2 hne)
    rw [if_pos ⟨List.prefix_append _ _, hlt⟩, List.drop_left]

/-- The files of a directory of the tree. -/
def nestedFiles (rel : PathBuf) (tree : Tree) : List File :=
  tree.files.filter fun f => (below rel (components f.path)).isSome

/-- An allowance that suffices for files, of which there is one. -/
def Suffices (a : Allowance) (files : List File) : Prop :=
  files ≠ [] ∧ files.length ≤ a.entries ∧ (files.map File.bytes).sum ≤ a.bytes

instance (a : Allowance) (files : List File) : Decidable (Suffices a files) :=
  inferInstanceAs (Decidable (_ ∧ _))

lemma below_isSome {directory path : PathBuf} :
    (below directory path).isSome = true ↔ ∃ rest, rest ≠ [] ∧ path = directory ++ rest := by
  rw [Option.isSome_iff_exists]
  exact exists_congr fun _ => below_eq_some

/-- A listed file is below the child when its name begins with that of the child and a slash. -/
lemma below_listed (hfront : front ≠ []) (hname : text path = .ok key) :
    (below (front.map .normal) path).isSome = (spell front ++ [slash]).isPrefixOf key := by
  obtain ⟨names, hne, rfl, -, -, rfl⟩ := text_iff.1 hname
  rw [Bool.eq_iff_iff, below_isSome, List.isPrefixOf_iff_prefix, spell_prefix_iff hfront hne]
  constructor
  · rintro ⟨rest, hrest, h⟩
    obtain ⟨front', names', rfl, hfront', rfl⟩ := List.map_eq_append_iff.1 h
    have hsame := List.map_injective_iff.2 (fun _ _ h => Component.normal.inj h) hfront'
    exact ⟨names', fun hnil => hrest (hnil ▸ rfl), by rw [hsame]⟩
  · rintro ⟨rest, hrest, rfl⟩
    exact ⟨rest.map .normal, mt List.map_eq_nil_iff.1 hrest, List.map_append⟩

lemma components_listed (hname : text path = .ok key) : components key = path := by
  obtain ⟨names, hne, rfl, -, -, rfl⟩ := text_iff.1 hname
  exact components_spell hne

/-- The files of the range, by their names below the child. -/
lemma exists_nested (hl : Listing S root l) (hfront : front ≠ []) :
    ∃ ws : List (List Name × Metadata),
      l.filter (fun z => (spell front ++ [slash]).isPrefixOf z.1.1) = ws.map (listed front) ∧
      ∀ w ∈ ws, Nested S root front w := by
  have heach : ∀ z ∈ l.filter (fun z => (spell front ++ [slash]).isPrefixOf z.1.1),
      ∃ w, Nested S root front w ∧ listed front w = z := by
    rintro ⟨⟨key, path⟩, m⟩ hz
    obtain ⟨hmem, hprefix⟩ := List.mem_filter.1 hz
    obtain ⟨names, hne, hpath, hadmitted, hfits, hkey⟩ := text_iff.1 (hl.names _ hmem)
    dsimp only at hpath hkey hprefix
    subst hpath hkey
    rw [List.isPrefixOf_iff_prefix, spell_prefix_iff hfront hne] at hprefix
    obtain ⟨rest, hrest, rfl⟩ := hprefix
    exact ⟨(rest, m), ⟨hrest, fun n hn => hadmitted n (List.mem_append_right _ hn), hfits,
      hl.readable _ hmem⟩, rfl⟩
  generalize l.filter (fun z => (spell front ++ [slash]).isPrefixOf z.1.1) = zs at heach
  induction zs with
  | nil => exact ⟨[], rfl, List.forall_mem_nil _⟩
  | cons z zs ih =>
    obtain ⟨⟨w, hw, rfl⟩, hrest⟩ := List.forall_mem_cons.1 heach
    obtain ⟨ws, rfl, hws⟩ := ih hrest
    exact ⟨w :: ws, rfl, List.forall_mem_cons.2 ⟨hw, hws⟩⟩

/-- What the child tracks. -/
lemma filterMap_below (hl : Listing S root l) (hfront : front ≠ [])
    (hws : l.filter (fun z => (spell front ++ [slash]).isPrefixOf z.1.1) = ws.map (listed front))
    (hnested : ∀ w ∈ ws, Nested S root front w) :
    (l.map fun z => z.1.2).filterMap (below (front.map .normal)) =
      (ws.map childEntry).map Prod.snd := by
  have hfilter : l.filterMap (fun z => below (front.map .normal) z.1.2) =
      (ws.map (listed front)).filterMap fun z => below (front.map .normal) z.1.2 := by
    rw [← hws, List.filterMap_filter]
    refine List.filterMap_congr fun z hz => ?_
    rw [← below_listed hfront (hl.names z hz)]
    cases below (front.map .normal) z.1.2 with
    | none => rfl
    | some rest => rfl
  have hchild : ∀ w ∈ ws, below (front.map .normal) (listed front w).1.2 =
      some (childEntry w).2 := fun w hw =>
    below_eq_some.2 ⟨mt List.map_eq_nil_iff.1 (hnested w hw).ne, List.map_append⟩
  rw [List.filterMap_map, Function.comp_def, hfilter, List.filterMap_map, Function.comp_def,
    List.filterMap_congr hchild, List.filterMap_eq_map', List.map_map]
  rfl

/-- The inventory of the child is the range of the parent. -/
lemma inventory_nested (hl : Listing S root l) (hfront : front ≠ [])
    (hws : l.filter (fun z => (spell front ++ [slash]).isPrefixOf z.1.1) = ws.map (listed front))
    (hnested : ∀ w ∈ ws, Nested S root front w)
    (hperm : (l.map fun z => z.1.2).Perm paths) :
    inventory (paths.filterMap (below (front.map .normal))) [] = .ok (ws.map childEntry) ∧
      (paths.filterMap (below (front.map .normal))).length = ws.length := by
  have hchild : (paths.filterMap (below (front.map .normal))).Perm
      ((ws.map childEntry).map Prod.snd) := by
    rw [← filterMap_below hl hfront hws hnested]
    exact (hperm.filterMap _).symm
  have hordered : Ordered (ws.map childEntry) := by
    refine ⟨fun p hp => ?_, ?_⟩
    · obtain ⟨w, hw, rfl⟩ := List.mem_map.1 hp
      exact (hnested w hw).text_eq hfront
    · have hsorted := hl.sorted.sublist (List.filter_sublist
        (p := fun z => (spell front ++ [slash]).isPrefixOf z.1.1))
      rw [hws, List.pairwise_map] at hsorted
      refine List.pairwise_map.2 (hsorted.imp_of_mem fun {v w} hv hw hlt => ?_)
      have hlt' : spell (front ++ v.1) < spell (front ++ w.1) := hlt
      rw [(hnested v hv).spell_eq hfront, (hnested w hw).spell_eq hfront] at hlt'
      exact Bytes.append_lt_append.1 hlt'
  have hnil : Ordered [] := ⟨List.forall_mem_nil _, List.Pairwise.nil⟩
  have hrun : ∃ ordered, inventory (paths.filterMap (below (front.map .normal))) [] =
      .ok ordered := by
    refine inventory_run hnil (fun path hpath => ?_) ?_
    · obtain ⟨p, hp, rfl⟩ := List.mem_map.1 (hchild.mem_iff.1 hpath)
      exact ⟨_, hordered.names p hp⟩
    · rw [List.map_nil, List.append_nil]
      exact hchild.nodup_iff.2 hordered.nodup
  obtain ⟨ordered, hrun⟩ := hrun
  obtain ⟨hordered', hperm'⟩ := inventory_ok hrun hnil
  rw [List.map_nil, List.append_nil] at hperm'
  refine ⟨?_, ?_⟩
  · rw [hrun, hordered'.unique hordered (hperm'.trans hchild)]
  · rw [hchild.length_eq, List.length_map, List.length_map]

/-- Without a name of its own, nothing is below the child. -/
lemma filterMap_below_nil (hl : Listing S root l) (hrel : rel ≠ [])
    (hperm : (l.map fun z => z.1.2).Perm paths) {e : Failure} (herror : text rel = .error e) :
    paths.filterMap (below rel) = [] := by
  refine List.filterMap_eq_nil_iff.2 fun path hpath => ?_
  cases hbelow : below rel path with
  | none => rfl
  | some rest =>
    obtain ⟨z, hz, rfl⟩ := List.mem_map.1 (hperm.mem_iff.2 hpath)
    obtain ⟨hrest, hpath⟩ := below_eq_some.1 hbelow
    obtain ⟨names, -, hnames, hadmitted, hfits, -⟩ := text_iff.1 (hl.names z hz)
    obtain ⟨front, names', rfl, rfl, rfl⟩ := List.map_eq_append_iff.1 (hnames.symm.trans hpath)
    have hfront : front ≠ [] := fun hnil => hrel (hnil ▸ rfl)
    have hnames' : names' ≠ [] := fun hnil => hrest (hnil ▸ rfl)
    rw [spell_append hfront hnames', List.length_append] at hfits
    have hname : text (front.map .normal) = .ok (spell front) :=
      text_iff.2 ⟨front, hfront, rfl, fun n hn => hadmitted n (List.mem_append_left _ hn),
        by omega, rfl⟩
    rw [herror] at hname
    cases hname

/-! ## What an allowance has to cover -/

lemma files_listed (hl : Listing S root l) {digest : String} (rel : PathBuf) :
    nestedFiles rel (observation blake3 S root digest l).tree =
      (l.filter fun z => (below rel z.1.2).isSome).map (recordedFile blake3 S root) := by
  unfold nestedFiles observation
  rw [List.filter_map]
  refine congrArg _ (List.filter_congr fun z hz => ?_)
  rw [Function.comp_apply, ← components_listed (hl.names z hz)]
  rfl

lemma suffices_iff (hl : Listing S root l) (hfront : front ≠ []) {digest : String}
    (hws : l.filter (fun z => (spell front ++ [slash]).isPrefixOf z.1.1) = ws.map (listed front)) :
    Suffices s.allowance (nestedFiles (front.map .normal)
      (observation blake3 S root digest l).tree) ↔ Covers s ws := by
  have hfilter : l.filter (fun z => (below (front.map .normal) z.1.2).isSome) =
      ws.map (listed front) := by
    rw [← hws]
    exact List.filter_congr fun z hz => below_listed hfront (hl.names z hz)
  unfold Suffices Covers nestedLength totalLength
  rw [files_listed hl, hfilter, List.length_map, List.length_map, List.map_map, List.map_map,
    List.map_map, ne_eq, List.map_eq_nil_iff]
  rfl

lemma not_suffices (hl : Listing S root l) (hrel : rel ≠ []) {digest : String} {e : Failure}
    (herror : text rel = .error e) :
    ¬ Suffices s.allowance (nestedFiles rel (observation blake3 S root digest l).tree) := by
  rintro ⟨hne, -, -⟩
  refine hne ?_
  rw [files_listed hl, List.map_eq_nil_iff, List.filter_eq_nil_iff]
  intro z hz hbelow
  have hnil := filterMap_below_nil hl hrel (List.Perm.refl _) herror
  have hnone := List.filterMap_eq_nil_iff.1 hnil _ (List.mem_map_of_mem hz)
  rw [hnone] at hbelow
  cases hbelow

/-! ## The result -/

/-- **A derived fingerprint is that of an independent run.**  After a root was hashed and as long as
the files do not change, `derive` returns for a directory below it the tree that hashing the tracked
files of the directory returns, and leaves the same allowance; they return when there is such a file
and the allowance suffices for all of them, and fail otherwise. -/
theorem derive_independent (d d' : Disk) (S : Snapshot) (hd : Presents d S) (hd' : Presents d' S)
    (root rel : PathBuf) (hrel : rel ≠ []) (paths : List PathBuf) (s t : Hashing)
    (hs : s.observed = []) (tree : Tree) (h : native blake3 d root paths s = (.ok tree, t))
    (a : Hashing) :
    if Suffices a.allowance (nestedFiles rel tree) then
      ∃ child t₁ t₂,
        derive blake3 S.stat ⟨tree, t.observed⟩ (root ++ rel) a = (.ok child, t₁) ∧
        native blake3 d' (root ++ rel) (paths.filterMap (below rel)) a = (.ok child, t₂) ∧
        t₁.allowance = t₂.allowance
    else
      (∃ e t₁, derive blake3 S.stat ⟨tree, t.observed⟩ (root ++ rel) a = (.error e, t₁)) ∧
      ∃ e t₂, native blake3 d' (root ++ rel) (paths.filterMap (below rel)) a = (.error e, t₂) := by
  obtain ⟨l, hl, hperm, hobservation⟩ := native_observation hd hs h
  have htree : tree = (observation blake3 S root tree.blake3 l).tree :=
    congrArg Observation.tree hobservation
  rw [hobservation, htree]
  cases hname : text rel with
  | error e =>
    rw [if_neg (not_suffices hl hrel hname), filterMap_below_nil hl hrel hperm hname]
    refine ⟨⟨e, a, ?_⟩, _, _, rfl⟩
    unfold derive
    rw [show (root ++ rel).drop (observation blake3 S root _ l).tree.root.length = rel from
      List.drop_left, hname]
    rfl
  | ok key =>
    obtain ⟨front, hfront, rfl, hadmitted, hfits, rfl⟩ := text_iff.1 hname
    obtain ⟨ws, hws, hnested⟩ := exists_nested hl hfront
    obtain ⟨hinventory, hlength⟩ := inventory_nested hl hfront hws hnested hperm
    split_ifs with hsuffices
    · have hcovers := (suffices_iff hl hfront hws).1 hsuffices
      exact ⟨_, _, _, derive_run hl hfront hname hws hnested hcovers,
        native_run hd' hnested hinventory hlength hcovers, rfl⟩
    · have hcovers := mt (suffices_iff hl hfront hws).2 hsuffices
      exact ⟨derive_error hl hfront hname hws hnested hcovers,
        native_error hd' hnested hinventory hlength hcovers⟩

/-- The names `x` and `a`. -/
def nameX : Name := ⟨[120], by decide⟩

@[inherit_doc nameX]
def nameA : Name := ⟨[97], by decide⟩

/-- An empty file `a` in the directory `x`, tracked by both. -/
theorem derive_independent_single : ∃ tree t,
    native constantHash emptyFiles [.root] [[.normal nameX, .normal nameA]] ⟨⟨1, 0⟩, none, []⟩ =
      (.ok tree, t) ∧
    if Suffices ⟨1, 0⟩ (nestedFiles [.normal nameX] tree) then
      ∃ child t₁ t₂,
        derive constantHash emptyTree.stat ⟨tree, t.observed⟩ [.root, .normal nameX]
          ⟨⟨1, 0⟩, none, []⟩ = (.ok child, t₁) ∧
        native constantHash emptyFiles [.root, .normal nameX] [[.normal nameA]]
          ⟨⟨1, 0⟩, none, []⟩ = (.ok child, t₂) ∧
        t₁.allowance = t₂.allowance
    else
      (∃ e t₁, derive constantHash emptyTree.stat ⟨tree, t.observed⟩ [.root, .normal nameX]
        ⟨⟨1, 0⟩, none, []⟩ = (.error e, t₁)) ∧
      ∃ e t₂, native constantHash emptyFiles [.root, .normal nameX] [[.normal nameA]]
        ⟨⟨1, 0⟩, none, []⟩ = (.error e, t₂) := by
  have htext : text [.normal nameX, .normal nameA] = .ok [120, 47, 97] :=
    text_iff.2 ⟨[nameX, nameA], List.cons_ne_nil _ _, rfl, List.forall_mem_cons.2
      ⟨⟨Utf8.fromUtf8_ok_iff.2 ⟨['x'], by decide⟩, by decide⟩, List.forall_mem_singleton.2
        ⟨Utf8.fromUtf8_ok_iff.2 ⟨['a'], by decide⟩, by decide⟩⟩, by decide, rfl⟩
  have hinventory : inventory [[.normal nameX, .normal nameA]] [] =
      .ok [([120, 47, 97], [.normal nameX, .normal nameA])] := by
    unfold inventory
    rw [htext]
    rfl
  have hhash : hashFiles constantHash emptyFiles [.root] _ ⟨⟨0, 0⟩, none, []⟩ = _ :=
    hashFiles_run presents_emptyTree hinventory (.cons (readable_emptyTree [.root] _) .nil)
      (Nat.zero_le _)
  have h : native constantHash emptyFiles [.root] [[.normal nameX, .normal nameA]]
      ⟨⟨1, 0⟩, none, []⟩ = _ := hhash
  have hbelow : [[Component.normal nameX, .normal nameA]].filterMap (below [.normal nameX]) =
      [[.normal nameA]] := by decide
  have hchild := derive_independent emptyFiles emptyFiles emptyTree presents_emptyTree
    presents_emptyTree [.root] [.normal nameX] (List.cons_ne_nil _ _) _ _ _ rfl _ h
    ⟨⟨1, 0⟩, none, []⟩
  rw [hbelow] at hchild
  exact ⟨_, _, h, hchild⟩

end Fingerprint

end Project

end Rnx
