import Rnx.Jupyter.Json
import Rnx.Project.Graph

/-!
# The handoff of a source map

The part of `wire.rs` that turns the mounts of an expanded graph into a document and checks the
document.  What the checks of a text ask of it (`identifier` is the parser's, `is_absolute` the
file system's) is `Texts`.
-/

namespace Rnx

namespace Project

open Jupyter (Json)

/-- What is asked of a text: `identifier` and `Path::is_absolute`. -/
structure Texts where
  identifier : String → Bool
  isAbsolute : String → Bool

/-- `Handoff`. -/
structure Handoff where
  format : Nat
  entry : String
  mounts : List (Mount String)

/-- `input::path`. -/
def inputPath (text : String) : Except String Unit :=
  if text.isEmpty || text.toList.contains '\x00' then
    .error "path must be nonempty and contain no NUL"
  else .ok ()

section Validate

variable (X : Texts)

/-- `absolute`. -/
def absolute (text : String) : Except String Unit := do
  inputPath text
  if X.isAbsolute text = false then .error "document requires absolute paths" else .ok ()

/-- `prefix`. -/
def mountPrefix (parts : List String) : Except String Unit :=
  if parts.isEmpty || decide (16 < parts.length) || !parts.all X.identifier then
    .error "prefix needs 1 to 16 valid Rune identifiers"
  else .ok ()

/-- `version`. -/
def version (n : Nat) : Except String Unit :=
  if n ≠ 1 then .error "unsupported document format (expected 1)" else .ok ()

/-- The loop of `Handoff::validate` over the mounts, with the prefixes seen. -/
def validateMounts (seen : List (List String)) : List (Mount String) → Except String Unit
  | [] => .ok ()
  | mount :: mounts => do
    mountPrefix X mount.aliases
    absolute X mount.root
    if mount.aliases ∈ seen then .error "duplicate source prefix"
    else validateMounts (mount.aliases :: seen) mounts

/-- `Handoff::validate`. -/
def Handoff.validate (handoff : Handoff) : Except String Unit := do
  version handoff.format
  absolute X handoff.entry
  if 256 < handoff.mounts.length then .error "source map exceeds 256 mounts"
  else validateMounts X [] handoff.mounts

end Validate

section FromProject

variable {P : Type} (string : P → Option String)

/-- A path as text. -/
def unicode (path : P) : Except String String :=
  (string path).elim (.error "project path is not Unicode") .ok

/-- The mounts as the document holds them. -/
def wireMounts (mounts : List (Mount P)) : Except String (List (Mount String)) :=
  mounts.mapM fun mount => (unicode string mount.root).map fun root => ⟨mount.aliases, root⟩

/-- The document of `Handoff::from_project`, before it is checked. -/
def handoff (entry : P) (mounts : List (Mount P)) : Except String Handoff := do
  let entry ← unicode string entry
  let mounts ← wireMounts string mounts
  pure ⟨1, entry, mounts⟩

/-- `Handoff::from_project`, after `manifest::resolve`. -/
def Handoff.fromProject (X : Texts) (entry : P) (mounts : List (Mount P)) :
    Except String Handoff := do
  let handoff ← handoff string entry mounts
  handoff.validate X
  pure handoff

end FromProject

/-! ## Writing a document -/

/-- What is used of `serde_json`: the compact text of a value, and the value of a text. -/
structure SerdeJson where
  toVec : Json → List UInt8
  fromSlice : List UInt8 → Except String Json

/-- `DOCUMENT_LIMIT`. -/
def documentLimit : Nat := 16 * 1024 * 1024

/-- What a `Mount` serializes to. -/
def Mount.json (mount : Mount String) : Json :=
  .obj [("prefix", .arr (mount.aliases.map .str)), ("root", .str mount.root)]

/-- What a `Handoff` serializes to. -/
def Handoff.json (handoff : Handoff) : Json :=
  .obj [("format", .nat handoff.format), ("entry", .str handoff.entry),
    ("mounts", .arr (handoff.mounts.map Mount.json))]

/-- `encoded`: the text of a document, capped while it is written. -/
def encoded (S : SerdeJson) (value : Json) : Except String (List UInt8) :=
  if documentLimit < (S.toVec value).length then .error "document exceeds 16777216 bytes"
  else .ok (S.toVec value)

/-- `Handoff::encode`. -/
def Handoff.encode (X : Texts) (S : SerdeJson) (handoff : Handoff) : Except String (List UInt8) := do
  handoff.validate X
  encoded S handoff.json

/-! ## What the checks come to -/

lemma bind_ok_unit {m : Except String Unit} {f : Unit → Except String Unit} :
    (m >>= f) = .ok () ↔ m = .ok () ∧ f () = .ok () := by
  cases m with
  | error e => exact iff_of_false (fun h => by cases h) fun h => by cases h.1
  | ok u => exact ⟨fun h => ⟨rfl, h⟩, fun h => h.2⟩

variable {X : Texts}

lemma mountPrefix_ok {parts : List String} (hpos : 1 ≤ parts.length) (hlong : parts.length ≤ 16) :
    mountPrefix X parts = .ok () ↔ ∀ name ∈ parts, X.identifier name = true := by
  have hempty : parts.isEmpty = false := by
    cases parts with
    | nil => cases hpos
    | cons part parts => rfl
  unfold mountPrefix
  rw [hempty, decide_eq_false (Nat.not_lt_of_le hlong), Bool.false_or, Bool.false_or,
    ← List.all_eq_true]
  cases parts.all X.identifier with
  | true => exact iff_of_true rfl rfl
  | false => exact iff_of_false (fun h => by cases h) Bool.false_ne_true

/-- Mounts with new and distinct prefixes of 1 to 16 components are checked only for their names
and their roots. -/
lemma validateMounts_ok {mounts : List (Mount String)} {seen : List (List String)}
    (hlengths : ∀ m ∈ mounts, 1 ≤ m.aliases.length ∧ m.aliases.length ≤ 16)
    (hdistinct : (mounts.map Mount.aliases).Nodup) (hnew : ∀ m ∈ mounts, m.aliases ∉ seen) :
    validateMounts X seen mounts = .ok () ↔ ∀ m ∈ mounts,
      (∀ name ∈ m.aliases, X.identifier name = true) ∧ absolute X m.root = .ok () := by
  induction mounts generalizing seen with
  | nil => exact iff_of_true rfl (List.forall_mem_nil _)
  | cons m mounts ih =>
    obtain ⟨⟨hpos, hlong⟩, hlengths⟩ := List.forall_mem_cons.1 hlengths
    obtain ⟨hm, hnew⟩ := List.forall_mem_cons.1 hnew
    obtain ⟨hother, hdistinct⟩ := List.nodup_cons.1 hdistinct
    have hnext : ∀ m' ∈ mounts, m'.aliases ∉ m.aliases :: seen := by
      intro m' hm' hmem
      obtain heq | hmem := List.mem_cons.1 hmem
      · exact hother (heq ▸ List.mem_map_of_mem hm')
      · exact hnew m' hm' hmem
    unfold validateMounts
    rw [bind_ok_unit, bind_ok_unit, if_neg hm, mountPrefix_ok hpos hlong,
      ih hlengths hdistinct hnext, List.forall_mem_cons, and_assoc]

/-- Such a handoff is checked only for its texts. -/
lemma validate_ok {document : Handoff} (hformat : document.format = 1)
    (hcount : document.mounts.length ≤ 256)
    (hlengths : ∀ m ∈ document.mounts, 1 ≤ m.aliases.length ∧ m.aliases.length ≤ 16)
    (hdistinct : (document.mounts.map Mount.aliases).Nodup) :
    document.validate X = .ok () ↔ absolute X document.entry = .ok () ∧ ∀ m ∈ document.mounts,
      (∀ name ∈ m.aliases, X.identifier name = true) ∧ absolute X m.root = .ok () := by
  unfold Handoff.validate version
  rw [if_neg (not_not.2 hformat), bind_ok_unit, bind_ok_unit, if_neg (Nat.not_lt_of_le hcount),
    validateMounts_ok hlengths hdistinct fun _ _ => List.not_mem_nil]
  exact and_iff_right rfl

/-- What the checks of the mounts say, with the prefixes seen before. -/
lemma validateMounts_facts {mounts : List (Mount String)} {seen : List (List String)}
    (h : validateMounts X seen mounts = .ok ()) :
    (∀ m ∈ mounts, m.aliases ∉ seen ∧ 1 ≤ m.aliases.length ∧ m.aliases.length ≤ 16 ∧
      (∀ name ∈ m.aliases, X.identifier name = true) ∧ absolute X m.root = .ok ()) ∧
      (mounts.map Mount.aliases).Nodup := by
  induction mounts generalizing seen with
  | nil => exact ⟨List.forall_mem_nil _, List.nodup_nil⟩
  | cons m mounts ih =>
    unfold validateMounts at h
    rw [bind_ok_unit, bind_ok_unit] at h
    obtain ⟨hparts, hroot, h⟩ := h
    split_ifs at h with hseen
    obtain ⟨hall, hdistinct⟩ := ih h
    unfold mountPrefix at hparts
    split_ifs at hparts with hbad
    rw [Bool.or_eq_true, Bool.or_eq_true, not_or, not_or, decide_eq_true_eq] at hbad
    obtain ⟨⟨hempty, hlong⟩, hnames⟩ := hbad
    have hnames : ∀ name ∈ m.aliases, X.identifier name = true := by
      rwa [Bool.not_eq_true, Bool.not_eq_false', List.all_eq_true] at hnames
    have hpos : 1 ≤ m.aliases.length := by
      rw [Nat.one_le_iff_ne_zero]
      exact fun hzero => hempty (List.isEmpty_iff_length_eq_zero.2 hzero)
    refine ⟨List.forall_mem_cons.2 ⟨⟨hseen, hpos, by omega, hnames, hroot⟩, fun m' hm' => ?_⟩, ?_⟩
    · obtain ⟨hnew, hrest⟩ := hall m' hm'
      exact ⟨fun hmem => hnew (List.mem_cons_of_mem _ hmem), hrest⟩
    · rw [List.map_cons, List.nodup_cons]
      refine ⟨fun hmem => ?_, hdistinct⟩
      obtain ⟨m', hm', heq⟩ := List.mem_map.1 hmem
      exact (hall m' hm').1 (heq ▸ List.mem_cons_self)

/-- What `Handoff::validate` says. -/
lemma validate_facts {document : Handoff} (h : document.validate X = .ok ()) :
    document.format = 1 ∧ absolute X document.entry = .ok () ∧ document.mounts.length ≤ 256 ∧
      (∀ m ∈ document.mounts, 1 ≤ m.aliases.length ∧ m.aliases.length ≤ 16 ∧
        (∀ name ∈ m.aliases, X.identifier name = true) ∧ absolute X m.root = .ok ()) ∧
      (document.mounts.map Mount.aliases).Nodup := by
  unfold Handoff.validate at h
  rw [bind_ok_unit, bind_ok_unit] at h
  obtain ⟨hversion, hentry, h⟩ := h
  unfold version at hversion
  split_ifs at hversion with hformat
  split_ifs at h with hcount
  obtain ⟨hall, hdistinct⟩ := validateMounts_facts h
  exact ⟨not_not.1 hformat, hentry, Nat.le_of_not_lt hcount, fun m hm => (hall m hm).2, hdistinct⟩

lemma absolute_facts {text : String} (h : absolute X text = .ok ()) :
    text.toList.contains '\x00' = false ∧ X.isAbsolute text = true := by
  unfold absolute at h
  rw [bind_ok_unit] at h
  obtain ⟨hpath, h⟩ := h
  unfold inputPath at hpath
  split_ifs at hpath with hbad
  split_ifs at h with habsolute
  rw [Bool.or_eq_true, not_or] at hbad
  exact ⟨Bool.eq_false_iff.2 hbad.2, Bool.not_eq_false _ ▸ habsolute⟩

variable {P : Type} {string : P → Option String}

lemma wireMounts_aliases {mounts : List (Mount P)} {texts : List (Mount String)}
    (h : wireMounts string mounts = .ok texts) :
    texts.map Mount.aliases = mounts.map Mount.aliases := by
  induction mounts generalizing texts with
  | nil =>
    cases h
    rfl
  | cons m mounts ih =>
    unfold wireMounts at h
    rw [List.mapM_cons] at h
    cases hroot : unicode string m.root with
    | error e =>
      rw [hroot] at h
      cases h
    | ok root =>
      rw [hroot] at h
      cases hrest : wireMounts string mounts with
      | error e =>
        unfold wireMounts at hrest
        rw [hrest] at h
        cases h
      | ok rest =>
        have hsame := ih hrest
        unfold wireMounts at hrest
        rw [hrest] at h
        cases h
        rw [List.map_cons, List.map_cons, hsame]

lemma handoff_ok {entry : P} {mounts : List (Mount P)} {document : Handoff}
    (h : handoff string entry mounts = .ok document) :
    document.format = 1 ∧ document.mounts.map Mount.aliases = mounts.map Mount.aliases := by
  unfold handoff at h
  cases hentry : unicode string entry with
  | error e =>
    rw [hentry] at h
    cases h
  | ok text =>
    rw [hentry] at h
    cases hmounts : wireMounts string mounts with
    | error e =>
      rw [hmounts] at h
      cases h
    | ok texts =>
      rw [hmounts] at h
      cases h
      exact ⟨rfl, wireMounts_aliases hmounts⟩

end Project

end Rnx
