import Mathlib.Data.List.Nodup
import Mathlib.Data.List.Sort
import Mathlib.Order.Defs.LinearOrder

/-!
# Maps in the order of their keys

A map whose keys are ordered is the list of its entries, in strict order of the keys.  It is
determined by its entries in any order, and a key that it does not have is put in its place.
-/

namespace Rnx

/-- A map: its entries, each key once, in order. -/
structure OrderedMap (κ υ : Type) [LinearOrder κ] where
  entries : List (κ × υ)
  sorted : entries.Pairwise fun a b => a.1 < b.1

namespace OrderedMap

variable {κ υ : Type} [LinearOrder κ] {k : κ} {v : υ} {m m' : OrderedMap κ υ}

/-- The map without entries. -/
def empty : OrderedMap κ υ := ⟨[], .nil⟩

/-- The keys in order. -/
def keys (m : OrderedMap κ υ) : List κ := m.entries.map Prod.fst

lemma nodup_keys (m : OrderedMap κ υ) : m.keys.Nodup :=
  List.pairwise_map.2 (m.sorted.imp fun h => ne_of_lt h)

lemma ext_entries (h : m.entries = m'.entries) : m = m' := by
  cases m
  cases m'
  cases h
  rfl

/-- The entries in any order determine the map. -/
lemma ext_perm (h : m.entries.Perm m'.entries) : m = m' :=
  ext_entries (h.eq_of_pairwise (fun _ _ _ _ hab hba => absurd hab (lt_asymm hba)) m.sorted m'.sorted)

/-- An entry is put in its place, instead of one with its key. -/
def place (k : κ) (v : υ) : List (κ × υ) → List (κ × υ)
  | [] => [(k, v)]
  | e :: es =>
      if k < e.1 then (k, v) :: e :: es
      else if k = e.1 then (k, v) :: es
      else e :: place k v es

lemma mem_place {e : κ × υ} {es : List (κ × υ)} (h : e ∈ place k v es) : e = (k, v) ∨ e ∈ es := by
  induction es with
  | nil => exact .inl (List.mem_singleton.1 h)
  | cons e' es ih =>
    unfold place at h
    split_ifs at h with hlt heq
    · exact List.mem_cons.1 h
    · exact (List.mem_cons.1 h).imp_right (List.mem_cons_of_mem _)
    · obtain rfl | h := List.mem_cons.1 h
      · exact .inr List.mem_cons_self
      · exact (ih h).imp_right (List.mem_cons_of_mem _)

lemma pairwise_place {es : List (κ × υ)} (h : es.Pairwise fun a b => a.1 < b.1) :
    (place k v es).Pairwise fun a b => a.1 < b.1 := by
  induction es with
  | nil => exact List.pairwise_singleton _ _
  | cons e es ih =>
    obtain ⟨hfirst, hrest⟩ := List.pairwise_cons.1 h
    unfold place
    split_ifs with hlt heq
    · refine List.pairwise_cons.2 ⟨fun e' he' => ?_, h⟩
      obtain rfl | he' := List.mem_cons.1 he'
      · exact hlt
      · exact hlt.trans (hfirst e' he')
    · exact List.pairwise_cons.2 ⟨fun e' he' => heq ▸ hfirst e' he', hrest⟩
    · refine List.pairwise_cons.2 ⟨fun e' he' => ?_, ih hrest⟩
      obtain rfl | he' := mem_place he'
      · exact lt_of_le_of_ne (not_lt.1 hlt) (Ne.symm heq)
      · exact hfirst e' he'

lemma place_perm {es : List (κ × υ)} (h : k ∉ es.map Prod.fst) :
    (place k v es).Perm ((k, v) :: es) := by
  induction es with
  | nil => exact List.Perm.refl _
  | cons e es ih =>
    rw [List.map_cons, List.mem_cons, not_or] at h
    unfold place
    rw [if_neg h.1]
    split_ifs with hlt
    · exact List.Perm.refl _
    · exact ((ih h.2).cons e).trans (List.Perm.swap _ _ _)

/-- `insert`. -/
def insert (k : κ) (v : υ) (m : OrderedMap κ υ) : OrderedMap κ υ :=
  ⟨place k v m.entries, pairwise_place m.sorted⟩

/-- A key that the map does not have is added. -/
lemma insert_perm (h : k ∉ m.keys) : (m.insert k v).entries.Perm ((k, v) :: m.entries) :=
  place_perm h

end OrderedMap

end Rnx
