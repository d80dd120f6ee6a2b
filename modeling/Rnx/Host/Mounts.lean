import Mathlib.Data.List.Lex
import Mathlib.Data.List.Nodup
import Rnx.Lib.Canonical
import Rnx.Project.Wire

/-!
# Mounted sources

`mounts.rs`: the roots of the source map by their logical prefixes, and the file of an item, which
the longest mounted prefix of the item decides.

What is asked of a path is `Paths`, and `identifier` is the test of an alias, which is the one of the
tool that writes the map.
-/

namespace Rnx

namespace Host

open Project (Mount)

/-- What is asked of a path: `Path::new`, `is_absolute`, `display` and `push`. -/
structure Paths (P : Type) where
  ofText : String → P
  isAbsolute : P → Bool
  display : P → String
  push : P → String → P

variable {P : Type}

/-- `ComponentRef`. -/
inductive ComponentRef
  | crate (name : String)
  | str (name : String)
  | id (n : Nat)
deriving DecidableEq, Repr

/-! ## The mounts -/

/-- Whether two neighbours are equal: `windows(2).any(|w| w[0] == w[1])`. -/
def repeats : List (List String) → Bool
  | a :: b :: l => a = b || repeats (b :: l)
  | _ => false

lemma pairwise_lt_of_repeats {l : List (List String)} (hle : l.Pairwise (· ≤ ·))
    (h : repeats l = false) : l.Pairwise (· < ·) := by
  induction l with
  | nil => exact .nil
  | cons a l ih =>
    obtain ⟨hfirst, hle⟩ := List.pairwise_cons.1 hle
    cases l with
    | nil => exact List.pairwise_singleton _ a
    | cons b l =>
      unfold repeats at h
      obtain ⟨hne, h⟩ := Bool.or_eq_false_iff.1 h
      have hrest := ih hle h
      have hab : a < b := lt_of_le_of_ne (hfirst b List.mem_cons_self) (decide_eq_false_iff_not.1 hne)
      refine List.pairwise_cons.2 ⟨fun x hx => ?_, hrest⟩
      obtain rfl | hx := List.mem_cons.1 hx
      · exact hab
      · exact hab.trans ((List.pairwise_cons.1 hrest).1 x hx)

lemma repeats_of_nodup {l : List (List String)} (h : l.Nodup) : repeats l = false := by
  induction l with
  | nil => rfl
  | cons a l ih =>
    obtain ⟨ha, h⟩ := List.nodup_cons.1 h
    cases l with
    | nil => rfl
    | cons b l =>
      unfold repeats
      have hab : ¬ a = b := fun hab => ha (List.mem_cons.2 (.inl hab))
      rw [ih h, decide_eq_false hab, Bool.or_false]

/-- The entries in the order of their prefixes. -/
def byPrefix (entries : List (Mount P)) : List (Mount P) := Canonical.sortBy Mount.aliases entries

/-- `Mounts`: no two have one prefix. -/
structure Mounts (P : Type) where
  entries : List (Mount P)
  sorted : (entries.map Mount.aliases).Pairwise (· < ·)

namespace Mounts

section New

variable (Y : Paths P) (identifier : String → Bool)

/-- The checks of one component. -/
def checkAlias (part : String) : Except String Unit :=
  if identifier part = false then .error ("invalid source alias `" ++ part ++ "`") else .ok ()

/-- The checks of one entry. -/
def checkEntry (entry : Mount P) : Except String Unit := do
  if entry.aliases.isEmpty || decide (16 < entry.aliases.length) then
    .error "source prefix needs 1 to 16 components"
  else entry.aliases.forM (checkAlias identifier)
  if Y.isAbsolute entry.root = false then
    .error ("source root is not absolute: " ++ Y.display entry.root)
  else .ok ()

/-- `Mounts::new`. -/
def new (entries : List (Mount P)) : Except String (Mounts P) :=
  if 256 < entries.length then .error "source map exceeds 256 mounts"
  else do
    entries.forM (checkEntry Y identifier)
    if h : repeats ((byPrefix entries).map Mount.aliases) = true then .error "duplicate source prefix"
    else .ok ⟨byPrefix entries,
      pairwise_lt_of_repeats (Canonical.sortBy_sorted _ entries) (Bool.eq_false_iff.2 h)⟩

end New

/-! ## The file of an item -/

/-- Whether the components of an item begin with the parts of a prefix. -/
def covers : List String → List ComponentRef → Bool
  | [], _ => true
  | p :: parts, .str s :: item => s = p && covers parts item
  | _ :: _, _ => false

/-- `Iterator::max_by_key`: the last of the elements with the greatest key. -/
def maxByKey {α : Type} (key : α → Nat) : List α → Option α
  | [] => none
  | a :: l => some (l.foldl (fun best e => if key best ≤ key e then e else best) a)

/-- The loop of `resolve` over the components behind the prefix. -/
def extend (push : P → String → P) (path : P) (atRoot : Bool) :
    List ComponentRef → Option (P × Bool)
  | [] => some (path, atRoot)
  | .str s :: item => extend push (push path s) false item
  | _ :: _ => none

/-- `Mounts::resolve`. -/
def resolve (Y : Paths P) (m : Mounts P) (item : List ComponentRef) : Option (P × Bool) := do
  let entry ← maxByKey (fun e => e.aliases.length) (m.entries.filter fun e => covers e.aliases item)
  extend Y.push entry.root true (item.drop entry.aliases.length)

/-! ## What is resolved -/

variable {item : List ComponentRef} {push : P → String → P} {Y : Paths P}

lemma covers_iff (parts : List String) :
    covers parts item = true ↔ parts.map ComponentRef.str <+: item := by
  induction parts generalizing item with
  | nil => exact iff_of_true rfl (List.nil_prefix)
  | cons p parts ih =>
    rw [List.map_cons]
    cases item with
    | nil => exact iff_of_false (fun h => by cases h) fun h => by cases List.prefix_nil.1 h
    | cons component item =>
      rw [List.cons_prefix_cons]
      cases component with
      | crate name => exact iff_of_false (fun h => by cases h) fun h => by cases h.1
      | str name =>
        unfold covers
        rw [Bool.and_eq_true, decide_eq_true_eq, ih, ComponentRef.str.injEq, eq_comm]
      | id n => exact iff_of_false (fun h => by cases h) fun h => by cases h.1

lemma maxByKey_spec {α : Type} (key : α → Nat) (l : List α) :
    (maxByKey key l = none ↔ l = []) ∧
      ∀ a, maxByKey key l = some a → a ∈ l ∧ ∀ b ∈ l, key b ≤ key a := by
  have hfold : ∀ (l : List α) (a : α),
      (l.foldl (fun best e => if key best ≤ key e then e else best) a ∈ a :: l) ∧
        ∀ b ∈ a :: l, key b ≤ key (l.foldl (fun best e => if key best ≤ key e then e else best) a) := by
    intro l
    induction l with
    | nil =>
      refine fun a => ⟨List.mem_singleton_self a, fun b hb => ?_⟩
      rw [List.mem_singleton.1 hb]
      rfl
    | cons e l ih =>
      intro a
      obtain ⟨hmem, hmax⟩ := ih (if key a ≤ key e then e else a)
      have hboth : key a ≤ key (if key a ≤ key e then e else a) ∧
          key e ≤ key (if key a ≤ key e then e else a) ∧ (if key a ≤ key e then e else a) ∈ [a, e] := by
        split_ifs with hle
        · exact ⟨hle, Nat.le_refl _, List.mem_cons_of_mem a (List.mem_singleton_self e)⟩
        · exact ⟨Nat.le_refl _, by omega, List.mem_cons_self⟩
      have hfirst := hmax _ List.mem_cons_self
      rw [List.foldl_cons]
      refine ⟨?_, fun b hb => ?_⟩
      · rcases List.mem_cons.1 hmem with heq | hmem
        · rw [heq]
          exact List.mem_append_left l hboth.2.2
        · exact List.mem_cons_of_mem a (List.mem_cons_of_mem e hmem)
      · rcases List.mem_cons.1 hb with rfl | hb
        · exact hboth.1.trans hfirst
        · rcases List.mem_cons.1 hb with rfl | hb
          · exact hboth.2.1.trans hfirst
          · exact hmax b (List.mem_cons_of_mem _ hb)
  cases l with
  | nil => exact ⟨iff_of_true rfl rfl, fun a ha => by cases ha⟩
  | cons e l =>
    refine ⟨iff_of_false (fun h => by cases h) (List.cons_ne_nil e l), fun a ha => ?_⟩
    obtain rfl := Option.some.inj ha
    exact hfold l e

lemma extend_eq_some {path path' : P} {atRoot atRoot' : Bool} :
    extend push path atRoot item = some (path', atRoot') ↔
      ∃ names : List String, item = names.map ComponentRef.str ∧ path' = names.foldl push path ∧
        atRoot' = (names.isEmpty && atRoot) := by
  induction item generalizing path atRoot with
  | nil =>
    unfold extend
    constructor
    · intro h
      obtain ⟨rfl, rfl⟩ := Prod.mk.inj (Option.some.inj h)
      exact ⟨[], rfl, rfl, (Bool.true_and _).symm⟩
    · rintro ⟨names, hnames, rfl, rfl⟩
      rw [List.map_eq_nil_iff.1 hnames.symm]
      rfl
  | cons component item ih =>
    cases component with
    | crate name =>
      refine iff_of_false (fun h => by cases h) ?_
      rintro ⟨names, hnames, -⟩
      cases names with
      | nil => cases hnames
      | cons n names => cases hnames
    | id n =>
      refine iff_of_false (fun h => by cases h) ?_
      rintro ⟨names, hnames, -⟩
      cases names with
      | nil => cases hnames
      | cons n names => cases hnames
    | str name =>
      unfold extend
      rw [ih]
      constructor
      · rintro ⟨names, rfl, rfl, rfl⟩
        exact ⟨name :: names, rfl, rfl, by rw [Bool.and_false]; rfl⟩
      · rintro ⟨names, hnames, rfl, rfl⟩
        cases names with
        | nil => cases hnames
        | cons n names =>
          obtain ⟨hn, htail⟩ := List.cons.inj hnames
          obtain rfl := ComponentRef.str.inj hn
          exact ⟨names, htail, rfl, by rw [Bool.and_false]; rfl⟩

lemma extend_eq_none {path : P} {atRoot : Bool} :
    extend push path atRoot item = none ↔ ∃ c ∈ item, ∀ name, c ≠ ComponentRef.str name := by
  induction item generalizing path atRoot with
  | nil => exact iff_of_false (fun h => by cases h) fun ⟨_, hc, _⟩ => List.not_mem_nil hc
  | cons component item ih =>
    cases component with
    | crate name =>
      exact iff_of_true rfl ⟨_, List.mem_cons_self, fun _ h => by cases h⟩
    | id n =>
      exact iff_of_true rfl ⟨_, List.mem_cons_self, fun _ h => by cases h⟩
    | str name =>
      unfold extend
      rw [ih]
      constructor
      · rintro ⟨c, hc, hname⟩
        exact ⟨c, List.mem_cons_of_mem _ hc, hname⟩
      · rintro ⟨c, hc, hname⟩
        obtain rfl | hc := List.mem_cons.1 hc
        · exact absurd rfl (hname name)
        · exact ⟨c, hc, hname⟩

/-- `m` is the mount with the longest prefix of an item. -/
structure Longest (mounts : List (Mount P)) (item : List ComponentRef) (m : Mount P) :
    Prop where
  mem : m ∈ mounts
  covers : m.aliases.map ComponentRef.str <+: item
  longest : ∀ m' ∈ mounts, m'.aliases.map ComponentRef.str <+: item →
    m'.aliases.length ≤ m.aliases.length

/-- A prefix of an item is its first components. -/
lemma eq_append_drop {e : Mount P} (h : e.aliases.map ComponentRef.str <+: item) :
    item = e.aliases.map ComponentRef.str ++ item.drop e.aliases.length := by
  conv_lhs => rw [← List.take_append_drop e.aliases.length item]
  congr 1
  have htake := List.prefix_iff_eq_take.1 h
  rw [List.length_map] at htake
  exact htake.symm

/-- Mounts with distinct prefixes: only one is the longest for an item. -/
lemma Longest.unique {mounts : List (Mount P)} {e e' : Mount P}
    (hdistinct : (mounts.map Mount.aliases).Nodup) (h : Longest mounts item e)
    (h' : Longest mounts item e') : e = e' := by
  have hlength := Nat.le_antisymm (h'.longest e h.mem h.covers) (h.longest e' h'.mem h'.covers)
  have hsame := (eq_append_drop h.covers).symm.trans (eq_append_drop h'.covers)
  have haliases : e.aliases = e'.aliases := by
    have hparts := (List.append_inj hsame (by rw [List.length_map, List.length_map, hlength])).1
    exact (List.map_injective_iff.2 fun a b hab => ComponentRef.str.inj hab) hparts
  exact List.inj_on_of_nodup_map hdistinct h.mem h'.mem haliases

variable {m : Mounts P}

lemma nodup (m : Mounts P) : (m.entries.map Mount.aliases).Nodup := m.sorted.imp fun h => h.ne

/-- The entry that `resolve` chooses. -/
lemma chosen_eq_some {e : Mount P} :
    maxByKey (fun e => e.aliases.length) (m.entries.filter fun e => covers e.aliases item) = some e ↔
      Longest m.entries item e := by
  obtain ⟨hnone, hsome⟩ := maxByKey_spec (fun e : Mount P => e.aliases.length)
    (m.entries.filter fun e => covers e.aliases item)
  have hlongest : ∀ e, maxByKey (fun e => e.aliases.length)
      (m.entries.filter fun e => covers e.aliases item) = some e → Longest m.entries item e :=
    fun e he => by
      obtain ⟨hmem, hmax⟩ := hsome e he
      obtain ⟨hmem, hcovers⟩ := List.mem_filter.1 hmem
      exact ⟨hmem, (covers_iff _).1 hcovers,
        fun e' he' hc => hmax e' (List.mem_filter.2 ⟨he', (covers_iff _).2 hc⟩)⟩
  refine ⟨hlongest e, fun h => ?_⟩
  cases hchosen : maxByKey (fun e => e.aliases.length)
      (m.entries.filter fun e => covers e.aliases item) with
  | none =>
    have hcovers : covers e.aliases item = true := (covers_iff _).2 h.covers
    exact absurd (List.mem_filter.2 ⟨h.mem, hcovers⟩) (hnone.1 hchosen ▸ List.not_mem_nil)
  | some e' => rw [(hlongest e' hchosen).unique m.nodup h]

/-- **An item resolves by the longest mounted prefix.** -/
lemma resolve_eq_some {path : P} {atRoot : Bool} :
    resolve Y m item = some (path, atRoot) ↔ ∃ e names, Longest m.entries item e ∧
      item = (e.aliases ++ names).map ComponentRef.str ∧ path = names.foldl Y.push e.root ∧
        atRoot = names.isEmpty := by
  unfold resolve
  rw [Option.bind_eq_bind, Option.bind_eq_some_iff]
  constructor
  · rintro ⟨e, he, hextend⟩
    have hlongest := chosen_eq_some.1 he
    obtain ⟨names, hnames, hpath, hroot⟩ := extend_eq_some.1 hextend
    refine ⟨e, names, hlongest, ?_, hpath, hroot.trans (Bool.and_true _)⟩
    rw [List.map_append, ← hnames]
    exact eq_append_drop hlongest.covers
  · rintro ⟨e, names, hlongest, hitem, hpath, hroot⟩
    refine ⟨e, chosen_eq_some.2 hlongest, extend_eq_some.2 ⟨names, ?_, hpath, ?_⟩⟩
    · rw [hitem, List.map_append]
      exact List.drop_left' (by rw [List.length_map])
    · rw [hroot, Bool.and_true]

/-- **What does not resolve**: no prefix is mounted, or a component behind the longest is no name. -/
lemma resolve_eq_none :
    resolve Y m item = none ↔
      (∀ e ∈ m.entries, ¬ e.aliases.map ComponentRef.str <+: item) ∨
        ∃ e, Longest m.entries item e ∧
          ∃ c ∈ item.drop e.aliases.length, ∀ name, c ≠ ComponentRef.str name := by
  unfold resolve
  rw [Option.bind_eq_bind]
  cases hchosen : maxByKey (fun e => e.aliases.length)
      (m.entries.filter fun e => covers e.aliases item) with
  | none =>
    refine iff_of_true rfl (.inl fun e he hcovers => ?_)
    have hempty := (maxByKey_spec _ _).1.1 hchosen
    exact List.filter_eq_nil_iff.1 hempty e he ((covers_iff _).2 hcovers)
  | some e =>
    have hlongest := chosen_eq_some.1 hchosen
    rw [Option.bind_some, extend_eq_none]
    constructor
    · exact fun h => .inr ⟨e, hlongest, h⟩
    · rintro (hnone | ⟨e', hlongest', h⟩)
      · exact absurd hlongest.covers (hnone e hlongest.mem)
      · rwa [hlongest.unique m.nodup hlongest']

end Mounts

end Host

end Rnx
