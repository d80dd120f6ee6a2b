import Rnx.Host.Mounts
import Rnx.Lib.Outcome

/-!
# The source map of the runner

`source_map.rs`: the document that the tool hands over, read with bounded lists, and its mounts.
`handoff_resolves` follows a document from the tool to the files of the items: what the tool
accepts the runner accepts, and the mounts it keeps are those of the document.
-/

namespace Rnx

namespace Host

open Project (Mount Handoff Texts SerdeJson)
open Jupyter (Json)

/-- `LIMIT`. -/
def sourceMapLimit : Nat := 16 * 1024 * 1024

/-- `Document`. -/
structure Document where
  format : Nat
  entry : String
  mounts : List (Mount String)

namespace SourceMap

/-! ## Reading the document -/

/-- The values of the named fields of a struct that denies unknown fields, as `Deserialize` is
derived: from an object in any order, or from an array. -/
def structFields (names : List String) : Json → Except String (List Json)
  | .obj fields =>
      if ¬ ∀ field ∈ fields, field.1 ∈ names then .error "unknown field"
      else if ¬ (fields.map Prod.fst).Nodup then .error "duplicate field"
      else names.mapM fun name => (fields.lookup name).elim (.error "missing field") .ok
  | .arr items => if items.length = names.length then .ok items else .error "invalid length"
  | _ => .error "invalid type"

/-- A `u32`. -/
def u32OfJson : Json → Except String Nat
  | .nat n => if n < 2 ^ 32 then .ok n else .error "invalid value"
  | _ => .error "invalid type"

/-- A `String`. -/
def textOfJson : Json → Except String String
  | .str s => .ok s
  | _ => .error "invalid type"

/-- The loop of `bounded` over the elements that are left. -/
def boundedFrom {α : Type} (n : Nat) (element : Json → Except String α) (values : List α) :
    List Json → Except String (List α)
  | [] => .ok values
  | item :: items => do
      let value ← element item
      if values.length = n then .error "array has too many entries"
      else boundedFrom n element (values ++ [value]) items

/-- `bounded`: a list of at most `n` elements. -/
def bounded {α : Type} (n : Nat) (element : Json → Except String α) :
    Json → Except String (List α)
  | .arr items => boundedFrom n element [] items
  | _ => .error "invalid type"

/-- `Mount`. -/
def mountOfJson (v : Json) : Except String (Mount String) := do
  match ← structFields ["prefix", "root"] v with
  | [aliases, root] => do
      let aliases ← bounded 16 textOfJson aliases
      let root ← textOfJson root
      .ok ⟨aliases, root⟩
  | _ => .error "invalid length"

/-- `Document`. -/
def documentOfJson (v : Json) : Except String Document := do
  match ← structFields ["format", "entry", "mounts"] v with
  | [format, entry, mounts] => do
      let format ← u32OfJson format
      let entry ← textOfJson entry
      let mounts ← bounded 256 mountOfJson mounts
      .ok ⟨format, entry, mounts⟩
  | _ => .error "invalid length"

section Decode

variable {P : Type} [DecidableEq P] (Y : Paths P) (identifier : String → Bool) (S : SerdeJson)

/-- `absolute`. -/
def absolute (path : String) : Except String P :=
  if path.toList.contains '\x00' = true ∨ Y.isAbsolute (Y.ofText path) = false then
    .error "source map paths must be absolute and contain no NUL"
  else .ok (Y.ofText path)

/-- The entries of the mounts of a document. -/
def mountEntries (mounts : List (Mount String)) : Except String (List (Mount P)) :=
  mounts.mapM fun m => (absolute Y m.root).map fun root => ⟨m.aliases, root⟩

/-- `decode`. -/
def decode (bytes : List UInt8) (entry : P) : Except String (Mounts P) := do
  let document ← S.fromSlice bytes >>= documentOfJson
  if document.format ≠ 1 then .error "unsupported source map format (expected 1)"
  else do
    let expected ← absolute Y document.entry
    if Y.isAbsolute entry = false ∨ entry ≠ expected then
      .error "source map entry does not match the absolute run entry"
    else if 256 < document.mounts.length then .error "source map exceeds 256 mounts"
    else do
      let mounts ← mountEntries Y document.mounts
      Mounts.new Y identifier mounts

/-- `read`, of a regular file with these bytes. -/
def read (path : P) (bytes : List UInt8) (entry : P) : Except String (Mounts P) :=
  (if sourceMapLimit < bytes.length then .error "source map exceeds 16777216 bytes"
    else decode Y identifier S bytes entry).mapError fun e =>
      "cannot read source map " ++ Y.display path ++ ": " ++ e

end Decode

/-! ## What is written is read -/

lemma boundedFrom_ok {α : Type} {n : Nat} {element : Json → Except String α} {json : α → Json}
    {items values : List α} (hitems : ∀ a ∈ items, element (json a) = .ok a)
    (hcount : values.length + items.length ≤ n) :
    boundedFrom n element values (items.map json) = .ok (values ++ items) := by
  induction items generalizing values with
  | nil => rw [List.append_nil]; rfl
  | cons a items ih =>
    obtain ⟨ha, hitems⟩ := List.forall_mem_cons.1 hitems
    rw [List.length_cons] at hcount
    refine Except.bind_eq_ok.2 ⟨a, ha, ?_⟩
    rw [if_neg (by omega), ih hitems (by rw [List.length_append, List.length_singleton]; omega),
      List.append_assoc, List.singleton_append]

lemma mountOfJson_json {m : Mount String} (hlength : m.aliases.length ≤ 16) :
    mountOfJson m.json = .ok m := by
  have haliases : bounded 16 textOfJson (.arr (m.aliases.map .str)) = .ok m.aliases :=
    boundedFrom_ok (fun _ _ => rfl) (by rw [List.length_nil]; omega)
  exact Except.bind_eq_ok.2 ⟨[.arr (m.aliases.map .str), .str m.root], rfl,
    Except.bind_eq_ok.2 ⟨m.aliases, haliases, rfl⟩⟩

/-- A handoff is read back from its value. -/
lemma documentOfJson_json {handoff : Handoff} (hformat : handoff.format < 2 ^ 32)
    (hcount : handoff.mounts.length ≤ 256)
    (hlengths : ∀ m ∈ handoff.mounts, m.aliases.length ≤ 16) :
    documentOfJson handoff.json = .ok ⟨handoff.format, handoff.entry, handoff.mounts⟩ := by
  have hmounts : bounded 256 mountOfJson (.arr (handoff.mounts.map Mount.json)) = .ok handoff.mounts :=
    boundedFrom_ok (fun m hm => mountOfJson_json (hlengths m hm)) (by rw [List.length_nil]; omega)
  exact Except.bind_eq_ok.2
    ⟨[.nat handoff.format, .str handoff.entry, .arr (handoff.mounts.map Mount.json)], rfl,
      Except.bind_eq_ok.2 ⟨handoff.format, if_pos hformat, Except.bind_eq_ok.2 ⟨handoff.entry, rfl,
        Except.bind_eq_ok.2 ⟨handoff.mounts, hmounts, rfl⟩⟩⟩⟩

/-! ## What the tool accepts -/

variable {P : Type} {Y : Paths P} {identifier : String → Bool}

/-- The texts of the tool are the paths of the runner. -/
def texts (Y : Paths P) (identifier : String → Bool) : Texts :=
  ⟨identifier, fun text => Y.isAbsolute (Y.ofText text)⟩

lemma absolute_ok {text : String} (h : Project.absolute (texts Y identifier) text = .ok ()) :
    absolute Y text = .ok (Y.ofText text) ∧ Y.isAbsolute (Y.ofText text) = true := by
  obtain ⟨hnul, habsolute⟩ := Project.absolute_facts h
  refine ⟨?_, habsolute⟩
  unfold absolute
  rw [hnul, if_neg]
  rintro (hfalse | hrelative)
  · exact absurd hfalse Bool.false_ne_true
  · exact absurd (habsolute.symm.trans hrelative) (by decide)

/-- A mount with its root as a path. -/
def mountEntry (Y : Paths P) (m : Mount String) : Mount P := ⟨m.aliases, Y.ofText m.root⟩

lemma mountEntries_ok {mounts : List (Mount String)}
    (h : ∀ m ∈ mounts, absolute Y m.root = .ok (Y.ofText m.root)) :
    mountEntries Y mounts = .ok (mounts.map (mountEntry Y)) := by
  induction mounts with
  | nil => rfl
  | cons m mounts ih =>
    obtain ⟨hm, h⟩ := List.forall_mem_cons.1 h
    unfold mountEntries
    rw [List.mapM_cons]
    refine Except.bind_eq_ok.2 ⟨mountEntry Y m, ?_, Except.bind_eq_ok.2 ⟨_, ih h, rfl⟩⟩
    rw [hm]
    rfl

/-- The mounts of a document that the tool has checked. -/
lemma new_ok (entries : List (Mount P)) (hcount : entries.length ≤ 256)
    (hentries : ∀ e ∈ entries, 1 ≤ e.aliases.length ∧ e.aliases.length ≤ 16 ∧
      (∀ name ∈ e.aliases, identifier name = true) ∧ Y.isAbsolute e.root = true)
    (hdistinct : (entries.map Mount.aliases).Nodup) :
    ∃ mounts, Mounts.new Y identifier entries = .ok mounts ∧ mounts.entries = byPrefix entries := by
  have hcheck : ∀ e ∈ entries, Mounts.checkEntry Y identifier e = .ok () := fun e he => by
    obtain ⟨hpos, hlong, hnames, habsolute⟩ := hentries e he
    have hempty : e.aliases.isEmpty = false := by
      rw [Bool.eq_false_iff, ne_eq, List.isEmpty_iff_length_eq_zero]
      omega
    have halias : ∀ part ∈ e.aliases, Mounts.checkAlias identifier part = .ok () := fun part hpart => by
      unfold Mounts.checkAlias
      rw [hnames part hpart, if_neg (Bool.false_ne_true ∘ Eq.symm)]
    unfold Mounts.checkEntry
    rw [hempty, decide_eq_false (Nat.not_lt_of_le hlong), habsolute]
    exact Except.bind_eq_ok.2 ⟨(), Except.forM_eq_ok.2 halias, rfl⟩
  have hperm : ((byPrefix entries).map Mount.aliases).Perm (entries.map Mount.aliases) :=
    (Canonical.sortBy_perm _ entries).map _
  have hrepeats := repeats_of_nodup (hperm.nodup_iff.2 hdistinct)
  refine ⟨⟨byPrefix entries, pairwise_lt_of_repeats (Canonical.sortBy_sorted _ entries) hrepeats⟩, ?_, rfl⟩
  unfold Mounts.new
  rw [if_neg (Nat.not_lt_of_le hcount)]
  refine Except.bind_eq_ok.2 ⟨(), Except.forM_eq_ok.2 hcheck, ?_⟩
  exact dif_neg (Bool.eq_false_iff.1 hrepeats)

open Mounts (Longest)

/-- The longest mount of an item, in the document and in the runner. -/
lemma longest_mountEntry {mounts : List (Mount String)} {entries : List (Mount P)}
    (hperm : entries.Perm (mounts.map (mountEntry Y))) {item : List ComponentRef} {e : Mount P} :
    Longest entries item e ↔ ∃ m, Longest mounts item m ∧ e = mountEntry Y m := by
  constructor
  · rintro ⟨hmem, hcovers, hlongest⟩
    obtain ⟨m, hm, rfl⟩ := List.mem_map.1 (hperm.mem_iff.1 hmem)
    exact ⟨m, ⟨hm, hcovers, fun m' hm' =>
      hlongest (mountEntry Y m') (hperm.mem_iff.2 (List.mem_map_of_mem hm'))⟩, rfl⟩
  · rintro ⟨m, ⟨hmem, hcovers, hlongest⟩, rfl⟩
    refine ⟨hperm.mem_iff.2 (List.mem_map_of_mem hmem), hcovers, fun e' he' => ?_⟩
    obtain ⟨m', hm', rfl⟩ := List.mem_map.1 (hperm.mem_iff.1 he')
    exact hlongest m' hm'

variable [DecidableEq P] {S : SerdeJson} {handoff : Handoff} {bytes : List UInt8}

/-- **What the tool writes the runner reads**, as the mounts of the document by their prefixes. -/
lemma decode_written (hencode : handoff.encode (texts Y identifier) S = .ok bytes)
    (hjson : S.fromSlice (S.toVec handoff.json) = .ok handoff.json) :
    bytes.length ≤ sourceMapLimit ∧ (handoff.mounts.map Mount.aliases).Nodup ∧
      ∃ mounts, decode Y identifier S bytes (Y.ofText handoff.entry) = .ok mounts ∧
        mounts.entries = byPrefix (handoff.mounts.map (mountEntry Y)) := by
  obtain ⟨⟨⟩, hvalid, hwrite⟩ := Except.bind_eq_ok.1 hencode
  obtain ⟨hformat, hentry, hcount, hmounts, hdistinct⟩ := Project.validate_facts hvalid
  unfold Project.encoded at hwrite
  split_ifs at hwrite with hlong
  obtain rfl := Except.ok.inj hwrite
  have hread : S.fromSlice (S.toVec handoff.json) >>= documentOfJson =
      .ok ⟨handoff.format, handoff.entry, handoff.mounts⟩ :=
    Except.bind_eq_ok.2 ⟨handoff.json, hjson,
      documentOfJson_json (by omega) hcount fun m hm => (hmounts m hm).2.1⟩
  obtain ⟨hpath, habsolute⟩ := absolute_ok hentry
  have hroots : ∀ m ∈ handoff.mounts, absolute Y m.root = .ok (Y.ofText m.root) ∧
      Y.isAbsolute (Y.ofText m.root) = true := fun m hm => absolute_ok (hmounts m hm).2.2.2
  have haliases : (handoff.mounts.map (mountEntry Y)).map Mount.aliases =
      handoff.mounts.map Mount.aliases := by
    rw [List.map_map]
    rfl
  obtain ⟨mounts, hnew, hentries⟩ := new_ok (handoff.mounts.map (mountEntry Y))
    (by rwa [List.length_map])
    (fun e he => by
      obtain ⟨m, hm, rfl⟩ := List.mem_map.1 he
      obtain ⟨hpos, hlength, hnames, -⟩ := hmounts m hm
      exact ⟨hpos, hlength, hnames, (hroots m hm).2⟩)
    (haliases ▸ hdistinct)
  refine ⟨Nat.le_of_not_lt hlong, hdistinct, mounts, ?_, hentries⟩
  refine Except.bind_eq_ok.2 ⟨_, hread, ?_⟩
  rw [if_neg (not_not.2 hformat)]
  refine Except.bind_eq_ok.2 ⟨Y.ofText handoff.entry, hpath, ?_⟩
  rw [if_neg, if_neg (Nat.not_lt_of_le hcount)]
  · exact Except.bind_eq_ok.2 ⟨_, mountEntries_ok fun m hm => (hroots m hm).1, hnew⟩
  · rintro (hrelative | hother)
    · exact absurd (habsolute.symm.trans hrelative) (by decide)
    · exact hother rfl

/-- **The source map of the tool**: the runner reads what the tool writes, in whatever order it lists
the mounts, and an item is in the file that the longest mounted prefix says, in none if there is no
such prefix or something behind it is no name. -/
theorem handoff_resolves (Y : Paths P) (identifier : String → Bool) (S : SerdeJson)
    (handoff other : Handoff) (bytes otherBytes : List UInt8)
    (hencode : handoff.encode (texts Y identifier) S = .ok bytes)
    (hjson : S.fromSlice (S.toVec handoff.json) = .ok handoff.json)
    (hperm : handoff.mounts.Perm other.mounts)
    (hencode' : other.encode (texts Y identifier) S = .ok otherBytes)
    (hjson' : S.fromSlice (S.toVec other.json) = .ok other.json) :
    ∃ mounts, decode Y identifier S bytes (Y.ofText handoff.entry) = .ok mounts ∧
      (∀ path, read Y identifier S path bytes (Y.ofText handoff.entry) = .ok mounts) ∧
      decode Y identifier S otherBytes (Y.ofText other.entry) = .ok mounts ∧
      ∀ item,
        (∀ m m', Longest handoff.mounts item m → Longest handoff.mounts item m' → m = m') ∧
        (∀ path atRoot, mounts.resolve Y item = some (path, atRoot) ↔
          ∃ m names, Longest handoff.mounts item m ∧
            item = (m.aliases ++ names).map ComponentRef.str ∧
            path = names.foldl Y.push (Y.ofText m.root) ∧ atRoot = names.isEmpty) ∧
        (mounts.resolve Y item = none ↔
          (∀ m ∈ handoff.mounts, ¬ m.aliases.map ComponentRef.str <+: item) ∨
          ∃ m, Longest handoff.mounts item m ∧
            ∃ c ∈ item.drop m.aliases.length, ∀ name, c ≠ ComponentRef.str name) := by
  obtain ⟨hlimit, hdistinct, mounts, hdecode, hentries⟩ := decode_written hencode hjson
  obtain ⟨-, -, mounts', hdecode', hentries'⟩ := decode_written hencode' hjson'
  have haliases : ((handoff.mounts.map (mountEntry Y)).map Mount.aliases).Nodup := by
    rw [List.map_map]
    exact hdistinct
  have hsame : mounts' = mounts := by
    have hlist := hentries'.trans
      ((Canonical.sortBy_eq (hperm.map (mountEntry Y)) haliases).symm.trans hentries.symm)
    cases mounts
    cases mounts'
    cases hlist
    rfl
  have hmounts : mounts.entries.Perm (handoff.mounts.map (mountEntry Y)) :=
    hentries ▸ Canonical.sortBy_perm _ _
  refine ⟨mounts, hdecode, fun path => ?_, hsame ▸ hdecode', fun item => ⟨fun m m' =>
    Longest.unique hdistinct, fun path atRoot => ?_, ?_⟩⟩
  · unfold read
    rw [if_neg (Nat.not_lt_of_le hlimit), hdecode]
    rfl
  · rw [Mounts.resolve_eq_some]
    constructor
    · rintro ⟨e, names, hlongest, hitem, hpath, hroot⟩
      obtain ⟨m, hm, rfl⟩ := (longest_mountEntry hmounts).1 hlongest
      exact ⟨m, names, hm, hitem, hpath, hroot⟩
    · rintro ⟨m, names, hlongest, hitem, hpath, hroot⟩
      exact ⟨mountEntry Y m, names, (longest_mountEntry hmounts).2 ⟨m, hlongest, rfl⟩, hitem, hpath,
        hroot⟩
  · rw [Mounts.resolve_eq_none]
    refine or_congr ⟨fun h m hm => ?_, fun h e he => ?_⟩ ⟨?_, ?_⟩
    · exact h (mountEntry Y m) (hmounts.mem_iff.2 (List.mem_map_of_mem hm))
    · obtain ⟨m, hm, rfl⟩ := List.mem_map.1 (hmounts.mem_iff.1 he)
      exact h m hm
    · rintro ⟨e, hlongest, h⟩
      obtain ⟨m, hm, rfl⟩ := (longest_mountEntry hmounts).1 hlongest
      exact ⟨m, hm, h⟩
    · rintro ⟨m, hlongest, h⟩
      exact ⟨mountEntry Y m, (longest_mountEntry hmounts).2 ⟨m, hlongest, rfl⟩, h⟩

/-- Paths of Unix as they are written. -/
def unixPaths : Paths String :=
  ⟨id, fun path => path.toList.head? = some '/', id, fun path name => path ++ "/" ++ name⟩

/-- A document with one mount. -/
def pkgHandoff : Handoff := ⟨1, "/m.rn", [⟨["pkg"], "/p"⟩]⟩

/-- The text of the document, and its value. -/
def pkgJson : SerdeJson where
  toVec _ := ("\x7b\"format\":1,\"entry\":\"/m.rn\",\"mounts\":" ++
    "[\x7b\"prefix\":[\"pkg\"],\"root\":\"/p\"\x7d]\x7d").toList.map fun c => UInt8.ofNat c.toNat
  fromSlice _ := .ok pkgHandoff.json

/-- The item `pkg::a` is the file `a` under the root of `pkg`. -/
theorem handoff_resolves_pkg : ∃ mounts,
    decode unixPaths (· = "pkg") pkgJson (pkgJson.toVec pkgHandoff.json) "/m.rn" = .ok mounts ∧
      mounts.resolve unixPaths [.str "pkg", .str "a"] = some ("/p/a", false) := by
  have hencode : pkgHandoff.encode (texts unixPaths (· = "pkg")) pkgJson =
      .ok (pkgJson.toVec pkgHandoff.json) := by
    decide +kernel
  obtain ⟨mounts, hdecode, -, -, hitems⟩ := handoff_resolves unixPaths (· = "pkg") pkgJson pkgHandoff
    pkgHandoff _ _ hencode rfl (.refl _) hencode rfl
  refine ⟨mounts, hdecode, ((hitems _).2.1 _ _).2 ⟨⟨["pkg"], "/p"⟩, ["a"],
    ⟨List.mem_singleton_self _, ⟨[.str "a"], rfl⟩, fun m' hm' _ => ?_⟩, rfl, by decide, rfl⟩⟩
  rw [List.mem_singleton.1 hm']

end SourceMap

end Host

end Rnx
