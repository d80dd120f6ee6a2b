import Mathlib.Data.List.Basic
import Mathlib.Data.Prod.Lex
import Mathlib.Tactic.Common
import Rnx.Lib.Bytes

/-!
# Paths and their text

A path is the list of its components.  `components` reads them from a text, where empty parts and
single dots count for nothing, and `spell` writes names with slashes between them.  A text that was
spelled is read back as the same names, and it begins with another one and a slash exactly when its
names begin with those of the other and go on.
-/

namespace Rnx

namespace PathText

/-- The separator. -/
def slash : UInt8 := 47

/-- What is between slashes and is the name of an entry. -/
def IsName (bs : List UInt8) : Prop := bs ≠ [] ∧ bs ≠ [46] ∧ bs ≠ [46, 46] ∧ slash ∉ bs

instance (bs : List UInt8) : Decidable (IsName bs) := inferInstanceAs (Decidable (_ ∧ _))

/-- The name of an entry. -/
structure Name where
  bytes : List UInt8
  isName : IsName bytes
deriving DecidableEq

/-- `Component`. -/
inductive Component
  | root
  | current
  | parent
  | normal (name : Name)
deriving DecidableEq

namespace Component

/-- The place of a kind of component in the order. -/
def rank : Component → Nat
  | root => 0
  | current => 1
  | parent => 2
  | normal _ => 3

/-- The bytes of a name, none of another component. -/
def bytes : Component → List UInt8
  | normal name => name.bytes
  | _ => []

lemma key_injective : Function.Injective fun c : Component => toLex (c.rank, c.bytes) := by
  intro c c' h
  obtain ⟨hrank, hbytes⟩ := Prod.mk.inj (toLex.injective h)
  cases c with
  | normal name =>
    cases c' with
    | normal name' =>
      cases name
      cases name'
      cases hbytes
      rfl
    | _ => cases hrank
  | _ => cases c' <;> first | rfl | cases hrank

end Component

/-- `Component::cmp`, by which paths are compared component by component. -/
instance componentOrder : LinearOrder Component := LinearOrder.lift' _ Component.key_injective

/-- The component of a part between slashes. -/
def part (bs : List UInt8) : Option Component :=
  if h : IsName bs then some (.normal ⟨bs, h⟩)
  else if bs = [46, 46] then some .parent
  else none

/-- `Path::components`. -/
def components (text : List UInt8) : List Component :=
  let parts := text.splitOn slash
  let front : List Component :=
    if text.head? = some slash then [.root]
    else if parts.head? = some [46] then [.current]
    else []
  front ++ parts.filterMap part

/-- `Path::join`. -/
def join (path other : List Component) : List Component :=
  if other.head? = some .root then other else path ++ other.filter (· ≠ .current)

/-- Names with slashes between them. -/
def spell (names : List Name) : List UInt8 := [slash].intercalate (names.map Name.bytes)

variable {names names' : List Name}

/-! ## Texts that were spelled -/

lemma splitOn_spell (hne : names ≠ []) : (spell names).splitOn slash = names.map Name.bytes := by
  refine List.splitOn_intercalate slash ?_ (by rwa [ne_eq, List.map_eq_nil_iff])
  intro bs hbs
  obtain ⟨n, -, rfl⟩ := List.mem_map.1 hbs
  exact n.isName.2.2.2

lemma spell_cons (n : Name) (hne : names ≠ []) :
    spell (n :: names) = n.bytes ++ slash :: spell names := by
  unfold spell
  rw [List.map_cons, List.intercalate_cons_of_ne_nil (by rwa [ne_eq, List.map_eq_nil_iff]),
    List.append_assoc]
  rfl

lemma spell_singleton (n : Name) : spell [n] = n.bytes := List.append_nil _

lemma spell_append (hne : names ≠ []) (hne' : names' ≠ []) :
    spell (names ++ names') = spell names ++ slash :: spell names' := by
  induction names with
  | nil => exact absurd rfl hne
  | cons n names ih =>
    by_cases hnil : names = []
    · rw [hnil, List.cons_append, List.nil_append, spell_cons n hne', spell_singleton]
    · rw [List.cons_append, spell_cons n (List.append_ne_nil_of_left_ne_nil hnil _), ih hnil,
        spell_cons n hnil, List.append_assoc]
      rfl

lemma spell_injective (hne : names ≠ []) (hne' : names' ≠ []) (h : spell names = spell names') :
    names = names' := by
  have hbytes : names.map Name.bytes = names'.map Name.bytes := by
    rw [← splitOn_spell hne, h, splitOn_spell hne']
  refine List.map_injective_iff.2 ?_ hbytes
  rintro ⟨bs, _⟩ ⟨bs', _⟩ rfl
  rfl

lemma part_bytes (n : Name) : part n.bytes = some (.normal n) := dif_pos n.isName

lemma head_spell (n : Name) : (spell (n :: names)).head? ≠ some slash := by
  obtain ⟨hempty, -, -, hslash⟩ := n.isName
  obtain ⟨b, bs, hbs⟩ := List.exists_cons_of_ne_nil hempty
  have hhead : (spell (n :: names)).head? = some b := by
    by_cases hnil : names = []
    · rw [hnil, spell_singleton, hbs]
      rfl
    · rw [spell_cons n hnil, hbs]
      rfl
  rw [hhead]
  intro h
  obtain rfl := Option.some.inj h
  exact hslash (hbs ▸ List.mem_cons_self)

/-- A text that was spelled is read back. -/
lemma components_spell (hne : names ≠ []) : components (spell names) = names.map .normal := by
  have hparts := splitOn_spell hne
  have hmap : (names.map Name.bytes).filterMap part = names.map .normal := by
    rw [List.filterMap_map, ← List.filterMap_eq_map]
    exact List.filterMap_congr fun n _ => part_bytes n
  obtain ⟨n, rest, rfl⟩ := List.exists_cons_of_ne_nil hne
  have hdot : ((n :: rest).map Name.bytes).head? ≠ some [46] := by
    intro h
    exact n.isName.2.1 (Option.some.inj h)
  unfold components
  dsimp only
  rw [hparts, if_neg (head_spell n), if_neg hdot, List.nil_append, hmap]

/-- A text begins with another one and a slash when its names begin with those of the other and
go on. -/
lemma spell_prefix_iff (hne : names ≠ []) (hne' : names' ≠ []) :
    spell names ++ [slash] <+: spell names' ↔ ∃ rest, rest ≠ [] ∧ names' = names ++ rest := by
  constructor
  · rintro ⟨t, ht⟩
    rw [List.append_assoc] at ht
    have hparts : names.map Name.bytes ++ t.splitOn slash = names'.map Name.bytes := by
      rw [← splitOn_spell hne, ← splitOn_spell hne', ← ht]
      exact (List.splitOn_append_cons_self _ _).symm
    obtain ⟨a, rest, rfl, ha, hrest⟩ := List.map_eq_append_iff.1 hparts.symm
    have hsame : a = names := by
      refine List.map_injective_iff.2 ?_ ha
      rintro ⟨bs, _⟩ ⟨bs', _⟩ rfl
      rfl
    refine ⟨rest, ?_, by rw [hsame]⟩
    rintro rfl
    exact List.splitOn_ne_nil slash t hrest.symm
  · rintro ⟨rest, hrest, rfl⟩
    rw [spell_append hne hrest]
    exact ⟨spell rest, by rw [List.append_assoc]; rfl⟩

lemma join_normal (path : List Component) (names : List Name) :
    join path (names.map .normal) = path ++ names.map .normal := by
  have hkept : (names.map Component.normal).filter (· ≠ .current) = names.map .normal := by
    rw [List.filter_eq_self]
    intro c hc
    obtain ⟨n, -, rfl⟩ := List.mem_map.1 hc
    exact decide_eq_true Component.noConfusion
  have hhead : (names.map Component.normal).head? ≠ some .root := by
    cases names with
    | nil => exact fun h => by cases h
    | cons n names => exact fun h => by cases h
  unfold join
  rw [if_neg hhead, hkept]

end PathText

end Rnx
