import Rnx.Store.Aging

/-!
# Handles over the runs of the store

Every call ages the handles, so a handle whose entry was released names nothing in any later store,
and whatever takes its slot carries a later generation.  A slot that is vacated in its last
generation stays vacant.  A slot that is vacated in the generation before moves on to the last one
and is used once more.
-/

namespace Rnx

open ErrState

namespace Store

variable {s t : Store} {h : Handle} {own : Handle → Nat}

/-! ## Runs -/

/-- The store some calls leave behind, whether each of them returns or fails. -/
def afterAll (calls : List Call) (s : Store) : Store := calls.foldl (fun s c => c.after s) s

lemma afterAll_aging (calls : List Call) (s : Store) : Aging s (afterAll calls s) := by
  induction calls generalizing s with
  | nil => exact refl_of Aging s
  | cons c calls ih => exact trans_of Aging (c.run_aging.run s) (ih (c.after s))

/-- A store a program can get to is sane. -/
lemma Reach.sane (h : Reach own s) : Sane s := by
  induction h with
  | new created =>
      have htable := (new_inv created).1.table
      constructor
      · exact htable.free_nodup
      · intro i hi
        obtain ⟨hlt, hcell⟩ := htable.free_vacant i hi
        rw [marks_getElem?, List.getElem?_eq_getElem hlt]
        unfold cell at hcell
        rw [List.getElem?_eq_getElem hlt] at hcell
        simp only [Option.bind_some, Option.map_eq_none_iff] at hcell
        rw [Option.map_some, hcell]
        exact ⟨_, rfl⟩
      · intro m hm
        obtain ⟨i, hi⟩ := List.mem_iff_getElem?.1 hm
        rw [marks_getElem?] at hi
        obtain ⟨sl, hsl, rfl⟩ := Option.map_eq_some_iff.1 hi
        exact htable.generation i sl hsl
  | @returned own s t c r before owned ran ih =>
      have hages := c.run_aging.run s ih
      rw [ran] at hages
      exact hages.sane
  | @failed own s t c e before owned ran ih =>
      have hages := c.run_aging.run s ih
      rw [ran] at hages
      exact hages.sane

/-- A slot vacated in its last generation stays vacant and off the free list. -/
lemma Spent.retired (hsane : Sane s) (hs : Spent s h) (hlast : h.generation = u32Max) :
    s.marks[h.slot]? = some (u32Max, false) ∧ h.slot ∉ s.free := by
  obtain ⟨g, b, hmark, hlater⟩ := hs
  have hbound := hsane.bounded _ (List.mem_of_getElem? hmark)
  obtain hlater | ⟨rfl, rfl, hfree⟩ := hlater
  · rw [hlast] at hlater
    exact absurd hlater (Nat.not_lt.2 hbound)
  · exact ⟨hlast ▸ hmark, hfree⟩

/-- Once an entry is gone, its handle names nothing in any later store: what is found in its slot
has a later generation, and after the last generation nothing is. -/
theorem handles_never_alias (hs : Reach own s) (hh : (s.at? h).isSome) (calls : List Call)
    (hgone : (afterAll calls s).at? h = none) (more : List Call) :
    (afterAll more (afterAll calls s)).at? h = none ∧
      (∀ k : Handle, k.slot = h.slot → ((afterAll more (afterAll calls s)).at? k).isSome →
        h.generation < k.generation) ∧
      (h.generation = u32Max → (afterAll more (afterAll calls s)).slots[h.slot]? =
        some ⟨u32Max, none⟩ ∧ h.slot ∉ (afterAll more (afterAll calls s)).free) := by
  have hages := afterAll_aging calls s hs.sane
  have hspent : Spent (afterAll calls s) h := by
    obtain hlive | hspent := hages.live h hh
    · rw [hgone] at hlive
      cases hlive
    · exact hspent
  have hlater := afterAll_aging more (afterAll calls s) hages.sane
  have hspent' := hlater.spent h hspent
  refine ⟨hspent'.at?, ?_, ?_⟩
  · intro k hslot hk
    exact hspent'.later hk hslot
  · intro hlast
    obtain ⟨hmark, hfree⟩ := hspent'.retired hlater.sane hlast
    rw [marks_getElem?] at hmark
    obtain ⟨⟨generation, entry⟩, hsl, hmark⟩ := Option.map_eq_some_iff.1 hmark
    obtain ⟨rfl, hentry⟩ := Prod.mk.inj hmark
    simp only [Option.isSome_eq_false_iff, Option.isNone_iff_eq_none] at hentry
    rw [hentry] at hsl
    exact ⟨hsl, hfree⟩

/-- The freed slot of a string names nothing any more, and the next string is a generation later. -/
theorem handles_never_alias_crowded :
    (afterAll [.string ['z']] (afterAll [.release (.heap ⟨1, 1⟩)] crowded)).at? ⟨1, 1⟩ = none ∧
      ((afterAll [.string ['z']] (afterAll [.release (.heap ⟨1, 1⟩)] crowded)).at? ⟨1, 2⟩).isSome :=
  ⟨(handles_never_alias reach_crowded (h := ⟨1, 1⟩) rfl [.release (.heap ⟨1, 1⟩)] rfl
    [.string ['z']]).1, rfl⟩

/-! ## The last generation -/

/-- A store whose only slot is vacant in a given generation. -/
def aged (g : Nat) : Store := { small with slots := [⟨g, none⟩], free := [0] }

/-- The store with an empty string in that slot. -/
def occupied (g : Nat) : Store :=
  { small with
    slots := [⟨g, some ⟨none, none, 1, 0, 0, false, .string (.copy [])⟩⟩]
    free := [], first := some 0, last := some 0, live := 1 }

lemma aged_string (g : Nat) :
    (Call.string []).run (aged g) = (.ok (some (.heap ⟨0, g⟩)), occupied g) := rfl

/-- The string that `occupied` holds. -/
def emptyString : Entry := ⟨none, none, 1, 0, 0, false, .string (.copy [])⟩

lemma occupied_releaseOne {g : Nat} (hg : g < u32Max) :
    releaseOne ⟨0, g⟩ (occupied g) = (.ok (), aged (g + 1)) := by
  have hentry : ErrState.read (·.entry ⟨0, g⟩) (occupied g) = (.ok emptyString, occupied g) := by
    have : (occupied g).entry ⟨0, g⟩ = .ok emptyString := by
      rw [entry_eq_ok, at?_eq_some]
      exact ⟨rfl, rfl⟩
    show ((occupied g).entry ⟨0, g⟩, occupied g) = _
    rw [this]
  have hroom : ¬ (g < u32Max ∧ (occupied g).free.length = (occupied g).freeCap) := by
    intro hfull
    exact absurd (show (0 : Nat) = 4 from hfull.2) (by decide)
  have hvacate : (occupied g).vacate 0 = { occupied g with slots := [⟨g + 1, none⟩], free := [0] } := by
    rw [vacate_eq (occupied g) (i := 0) rfl, if_pos hg]
    rfl
  unfold releaseOne
  rw [run_bind hentry]
  -- The other checks compare constants.
  show (do
    guardWith (¬ (g < u32Max ∧ (occupied g).free.length = (occupied g).freeCap)) (err .invalidCode)
    update (fun s => (s.vacate 0).unlink emptyString)
    update (fun s => { s with bytes := s.bytes - 0, live := s.live - 1 })
    enqueueChildren emptyString.payload : M Unit) (occupied g) = _
  unfold guardWith
  rw [if_pos hroom]
  show (do
    update (fun s => { s with bytes := s.bytes - 0, live := s.live - 1 })
    enqueueChildren emptyString.payload : M Unit) (((occupied g).vacate 0).unlink emptyString) = _
  rw [hvacate]
  rfl

lemma occupied_release {g : Nat} (hg : g < u32Max) :
    (Call.release (.heap ⟨0, g⟩)).run (occupied g) = (.ok none, aged (g + 1)) := by
  have hone : attempt (releaseOne ⟨0, g⟩) (occupied g) = (.ok (.ok ()), aged (g + 1)) := by
    unfold attempt
    rw [occupied_releaseOne hg]
  have hrelease : release (.heap ⟨0, g⟩) (occupied g) = (.ok (), aged (g + 1)) := by
    show (do
      let r ← attempt (releaseOne ⟨0, g⟩)
      drainWork (firstError none r) : M Unit) (occupied g) = _
    rw [run_bind hone]
    rfl
  show performing (release (.heap ⟨0, g⟩)) (occupied g) = _
  unfold performing
  rw [run_bind hrelease]
  rfl

/-- A program can bring the slot to any generation, by releasing what it has just made. -/
lemma reach_aged {g : Nat} (hg : g + 2 ≤ u32Max) : Reach 0 (aged (g + 2)) := by
  have hround : ∀ {g : Nat} {s : Store} {own : Handle → Nat}, g < u32Max → Reach own s → own = 0 →
      (Call.string []).run s = (.ok (some (.heap ⟨0, g⟩)), occupied g) → Reach 0 (aged (g + 1)) := by
    intro g s own hlt hs hown hrun
    have hmade := hs.returned (c := .string []) trivial hrun
    have howned : (Call.release (.heap ⟨0, g⟩)).Owned
        (own - (Call.string []).takes + optionRefs (some (.heap ⟨0, g⟩))) :=
      fun k => Nat.le_add_left _ _
    have hfreed := hmade.returned howned (occupied_release hlt)
    convert hfreed using 1
    funext k
    simp [hown, Call.takes, optionRefs]
  induction g with
  | zero =>
      have hcreated : Store.new 1 ⟨4, 40⟩ noNominals (fun _ => true) = .ok small := rfl
      exact hround (g := 1) (by decide) (Reach.new hcreated) rfl rfl
  | succ g ih => exact hround (by omega) (ih (by omega)) rfl (aged_string _)

/-- A slot whose generation has reached the last one can still be on the free list: it was vacated
in the generation before, and is occupied once more. -/
theorem last_generation_reused :
    ¬ ∀ own s, Reach own s → ∀ i : Nat, s.slots[i]? = some ⟨u32Max, none⟩ →
      ∀ calls, (afterAll calls s).slots[i]? = some ⟨u32Max, none⟩ := by
  intro hretired
  have hreach : Reach 0 (aged u32Max) := reach_aged (g := u32Max - 2) (by decide)
  have hreused : afterAll [.string []] (aged u32Max) = occupied u32Max := rfl
  have hvacant := hretired 0 (aged u32Max) hreach 0 rfl [.string []]
  rw [hreused] at hvacant
  cases hvacant

end Store

end Rnx
