import Rnx.Project.Fingerprint

/-!
# The names of an inventory

`text` accepts the paths of ordinary components that are text without backslashes, and spells them.
An inventory is accepted when all its paths are and no two of them have one name; it is then in
strict order of the names.
-/

namespace Rnx

namespace Project

namespace Fingerprint

open PathText

/-- A name `text` accepts. -/
def Admitted (n : Name) : Prop := (Utf8.fromUtf8 n.bytes).error = none ∧ 92 ∉ n.bytes

variable {path : PathBuf} {n : Name} {names : List Name} {key : List UInt8}

lemma bind_eq_ok {ε α β : Type} {m : Except ε α} {f : α → Except ε β} {b : β} :
    (m >>= f) = .ok b ↔ ∃ a, m = .ok a ∧ f a = .ok b := by
  cases m with
  | error e => exact iff_of_false (fun h => by cases h) fun ⟨_, h, _⟩ => by cases h
  | ok a => exact ⟨fun h => ⟨a, rfl, h⟩, fun ⟨_, h, h'⟩ => by cases h; exact h'⟩

lemma componentName_normal (h : Admitted n) : componentName path (.normal n) = .ok n := by
  have hvalid : ¬ (Utf8.fromUtf8 n.bytes).error.isSome = true := by
    rw [h.1]
    exact Bool.false_ne_true
  have hslash : ¬ n.bytes.contains 92 = true := fun hmem => h.2 (List.contains_iff_mem.1 hmem)
  exact (if_neg hvalid).trans (if_neg hslash)

lemma componentName_iff {c : Component} :
    componentName path c = .ok n ↔ c = .normal n ∧ Admitted n := by
  refine ⟨fun h => ?_, fun ⟨hc, hn⟩ => hc ▸ componentName_normal hn⟩
  cases c with
  | normal m =>
    change (if _ then _ else if _ then _ else _) = _ at h
    split_ifs at h with hvalid hmem
    cases h
    exact ⟨rfl, Option.not_isSome_iff_eq_none.1 hvalid, fun h => hmem (List.contains_iff_mem.2 h)⟩
  | _ => cases h

lemma mapM_componentName_iff {front : PathBuf} : front.mapM (componentName path) = .ok names ↔
    front = names.map .normal ∧ ∀ n ∈ names, Admitted n := by
  induction front generalizing names with
  | nil =>
    cases names with
    | nil => exact iff_of_true rfl ⟨rfl, List.forall_mem_nil _⟩
    | cons n names => exact iff_of_false (fun h => by cases h) fun h => by cases h.1
  | cons c front ih =>
    rw [List.mapM_cons, bind_eq_ok]
    constructor
    · rintro ⟨n, hn, h⟩
      obtain ⟨rest, hrest, h⟩ := bind_eq_ok.1 h
      cases h
      obtain ⟨rfl, hadmitted⟩ := componentName_iff.1 hn
      obtain ⟨rfl, hall⟩ := ih.1 hrest
      exact ⟨rfl, List.forall_mem_cons.2 ⟨hadmitted, hall⟩⟩
    · rintro ⟨heq, hall⟩
      cases names with
      | nil => cases heq
      | cons n names =>
        cases heq
        obtain ⟨hadmitted, hall⟩ := List.forall_mem_cons.1 hall
        exact ⟨n, componentName_iff.2 ⟨rfl, hadmitted⟩, bind_eq_ok.2 ⟨names, ih.2 ⟨rfl, hall⟩, rfl⟩⟩

/-- What `text` accepts, and what it spells. -/
lemma text_iff : text path = .ok key ↔ ∃ names, names ≠ [] ∧ path = names.map .normal ∧
    (∀ n ∈ names, Admitted n) ∧ (spell names).length < 2 ^ 63 ∧ key = spell names := by
  unfold text
  rw [bind_eq_ok]
  constructor
  · rintro ⟨names, hnames, h⟩
    obtain ⟨rfl, hall⟩ := mapM_componentName_iff.1 hnames
    split_ifs at h with hnil hfits
    cases h
    exact ⟨names, hnil, rfl, hall, hfits, rfl⟩
  · rintro ⟨names, hne, rfl, hall, hfits, rfl⟩
    exact ⟨names, mapM_componentName_iff.2 ⟨rfl, hall⟩, by rw [if_neg hne, if_pos hfits]⟩

/-- An ordered inventory: names in strict order, each that of its path. -/
structure Ordered (ordered : List (List UInt8 × PathBuf)) : Prop where
  names : ∀ p ∈ ordered, text p.2 = .ok p.1
  sorted : ordered.Pairwise fun a b => a.1 < b.1

lemma pairwise_orderedInsert {key : List UInt8} {ordered : List (List UInt8 × PathBuf)}
    (hsorted : ordered.Pairwise fun a b => a.1 < b.1) (hnew : key ∉ ordered.map Prod.fst) :
    (ordered.orderedInsert (fun a b => a.1 ≤ b.1) (key, path)).Pairwise fun a b => a.1 < b.1 := by
  induction ordered with
  | nil => exact List.pairwise_singleton _ _
  | cons b ordered ih =>
    obtain ⟨hfirst, hrest⟩ := List.pairwise_cons.1 hsorted
    rw [List.map_cons, List.mem_cons, not_or] at hnew
    rw [List.orderedInsert_cons]
    split_ifs with hle
    · have hlt : key < b.1 := lt_of_le_of_ne hle hnew.1
      refine List.pairwise_cons.2 ⟨fun c hc => ?_, hsorted⟩
      obtain rfl | hc := List.mem_cons.1 hc
      · exact hlt
      · exact hlt.trans (hfirst c hc)
    · refine List.pairwise_cons.2 ⟨fun c hc => ?_, ih hrest hnew.2⟩
      obtain rfl | hc := (List.mem_orderedInsert _).1 hc
      · exact lt_of_not_ge hle
      · exact hfirst c hc

lemma Ordered.insert {ordered : List (List UInt8 × PathBuf)} (h : Ordered ordered)
    (hkey : text path = .ok key) (hnew : key ∉ ordered.map Prod.fst) :
    Ordered (ordered.orderedInsert (fun a b => a.1 ≤ b.1) (key, path)) := by
  refine ⟨fun p hp => ?_, pairwise_orderedInsert h.sorted hnew⟩
  obtain rfl | hp := (List.mem_orderedInsert _).1 hp
  · exact hkey
  · exact h.names p hp

/-- An inventory that is accepted holds its paths in order. -/
lemma inventory_ok {paths : List PathBuf} {before ordered : List (List UInt8 × PathBuf)}
    (h : inventory paths before = .ok ordered) (hbefore : Ordered before) :
    Ordered ordered ∧ (ordered.map Prod.snd).Perm (paths ++ before.map Prod.snd) := by
  induction paths generalizing before with
  | nil =>
    cases h
    exact ⟨hbefore, List.Perm.refl _⟩
  | cons path paths ih =>
    obtain ⟨key, hkey, h⟩ := bind_eq_ok.1 h
    split_ifs at h with hmem
    have hinsert := List.perm_orderedInsert (fun a b : List UInt8 × PathBuf => a.1 ≤ b.1)
      (key, path) before
    obtain ⟨hordered, hperm⟩ := ih h (hbefore.insert hkey hmem)
    refine ⟨hordered, hperm.trans ?_⟩
    exact ((hinsert.map Prod.snd).append_left paths).trans List.perm_middle

lemma text_injective {path' : PathBuf} (h : text path = .ok key) (h' : text path' = .ok key) :
    path = path' := by
  obtain ⟨names, hne, rfl, -, -, rfl⟩ := text_iff.1 h
  obtain ⟨names', hne', rfl, -, -, heq⟩ := text_iff.1 h'
  rw [spell_injective hne hne' heq]

/-- The paths of an ordered inventory are distinct. -/
lemma Ordered.nodup {ordered : List (List UInt8 × PathBuf)} (h : Ordered ordered) :
    (ordered.map Prod.snd).Nodup := by
  refine List.pairwise_map.2 (h.sorted.imp_of_mem fun {p q} hp hq hlt heq => ?_)
  have hp' := h.names p hp
  rw [heq, h.names q hq] at hp'
  rw [Except.ok.inj hp'] at hlt
  exact lt_irrefl _ hlt

/-- Distinct paths with names make an inventory. -/
lemma inventory_run {paths : List PathBuf} {before : List (List UInt8 × PathBuf)}
    (hbefore : Ordered before) (htexts : ∀ path ∈ paths, ∃ key, text path = .ok key)
    (hdistinct : (paths ++ before.map Prod.snd).Nodup) :
    ∃ ordered, inventory paths before = .ok ordered := by
  induction paths generalizing before with
  | nil => exact ⟨before, rfl⟩
  | cons path paths ih =>
    obtain ⟨⟨key, hkey⟩, htexts⟩ := List.forall_mem_cons.1 htexts
    obtain ⟨hpath, hrest⟩ := List.nodup_cons.1 hdistinct
    have hmem : key ∉ before.map Prod.fst := by
      intro hmem
      obtain ⟨p, hp, rfl⟩ := List.mem_map.1 hmem
      refine hpath (List.mem_append_right _ ?_)
      rw [text_injective hkey (hbefore.names p hp)]
      exact List.mem_map_of_mem hp
    have hinsert := List.perm_orderedInsert (fun a b : List UInt8 × PathBuf => a.1 ≤ b.1)
      (key, path) before
    have hnodup : (paths ++ (before.orderedInsert (fun a b => a.1 ≤ b.1) (key, path)).map
        Prod.snd).Nodup :=
      (((hinsert.map Prod.snd).append_left paths).trans List.perm_middle).nodup_iff.2 hdistinct
    obtain ⟨ordered, hordered⟩ := ih (hbefore.insert hkey hmem) htexts hnodup
    refine ⟨ordered, bind_eq_ok.2 ⟨key, hkey, ?_⟩⟩
    rw [if_neg hmem]
    exact hordered

/-- The order of an inventory is determined by its paths. -/
lemma Ordered.unique {ordered ordered' : List (List UInt8 × PathBuf)} (h : Ordered ordered)
    (h' : Ordered ordered') (hperm : (ordered.map Prod.snd).Perm (ordered'.map Prod.snd)) :
    ordered = ordered' := by
  have hkeys : ∀ l : List (List UInt8 × PathBuf), Ordered l →
      (l.map Prod.snd).map (fun path => ((text path).toOption.getD [], path)) = l := by
    intro l hl
    rw [List.map_map]
    refine (List.map_congr_left fun p hp => ?_).trans (List.map_id l)
    rw [Function.comp_apply, hl.names p hp]
    rfl
  have hsame : ordered.Perm ordered' := by
    rw [← hkeys ordered h, ← hkeys ordered' h']
    exact hperm.map _
  exact hsame.eq_of_pairwise (fun a b _ _ hab hba => absurd hab (lt_asymm hba)) h.sorted h'.sorted

end Fingerprint

end Project

end Rnx
