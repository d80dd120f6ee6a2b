import Rnx.Store.Freed
import Rnx.Store.Resize

/-!
# Reachable stores

Stores as a program sees them: created empty, then changed by any sequence of calls, each of
which may succeed or fail.  `Reach own s` keeps, beside the store, the references the callers own:
a constructor hands one over, `retain` acquires one, `release` gives one up.  Which allocations
fail is part of the store, so a reachable store is reachable under some choice of failures.

The results of this module are the three promises the store makes: the representation invariant,
that a release cannot fail, and that a failed call leaves nothing behind.
-/

namespace Rnx

open ErrState

namespace Store

/-! ## Creation -/

/-- `MAX_ENTRIES`. -/
def maxEntries : Nat := u32Max - 1

/-- `INITIAL_ENTRIES`, which is also `INITIAL_WORK`. -/
def initialEntries : Nat := 64

/-- `size_of::<Slot>()`. -/
def sizeSlot : Nat := 80

/-- A store without entries, with its initial reservations. -/
def empty (id : Nat) (limits : Limits) (nominals : Nominals) (allocator : Nat → Bool) : Store where
  id := id
  closed := false
  limits := limits
  slots := []
  free := []
  work := []
  opaqueNames := []
  opaqueSweepAt := 8
  edges := 0
  first := none
  last := none
  live := 0
  bytes := 0
  slotCap := min limits.entries initialEntries
  freeCap := min limits.entries initialEntries
  workCap := initialEntries
  opaqueCap := 0
  allocator := allocator
  nominals := nominals

/-- The allocations of `Store::new`. -/
def reserveInitial (limits : Limits) : M Unit := do
  alloc (min limits.entries initialEntries * sizeSlot)
  alloc (min limits.entries initialEntries * 4)
  alloc (initialEntries * sizeValue)

/-- `Store::new`. -/
def new (id : Nat) (limits : Limits) (nominals : Nominals) (allocator : Nat → Bool) :
    Except Error Store :=
  if limits.entries = 0 ∨ limits.entries > maxEntries ∨ limits.bytes > isizeMax ∨
      limits.entries * sizeSlot > isizeMax ∨ limits.entries * 4 > isizeMax then
    .error (err .storeCapacity)
  else
    match reserveInitial limits (empty id limits nominals allocator) with
    | (.ok (), s) => .ok s
    | (.error e, _) => .error e

/-! ## Calls -/

/-- The calls a program makes on a store. -/
inductive Call
  | string (text : List Char)
  | stringFrom (v : Value)
  | list (tag : Ty) (values : List Value)
  | closure (code function : Nat) (env : Value)
  | record (tag : Ty) (fields : List (List Char × Value))
  | variant (tag : Ty) (success : Bool) (payload : Option Value)
  | range (start finish : I64)
  | rangeValues (start finish : Value)
  | otherRange (tag : Ty) (args : List Value)
  | vecWithCapacity (capacity : Nat)
  | concatString (a b : Value)
  | iterator (v : Value)
  | textSplit (v delimiter : Value)
  | pipelineChars (v : Value)
  | pipelineAdapter (v n : Value) (take : Bool)
  | pipelineChild (v : Value)
  | retain (v : Value)
  | release (v : Value)
  | set (v : Value) (index : Nat) (new : Value)
  | push (v new : Value)
  | setKey (v : Value) (key : RecordKey) (new : Value)
  | fieldSetMut (v : Value) (key : List Char) (new : Value)
  | tupleSet (v : Value) (index : Nat) (new : Value)
  | tupleSetMut (v : Value) (index : Nat) (new : Value)
  | setRangeField (h : Handle) (key : List Char) (new : Value)
  | setOtherRangeField (h : Handle) (key : List Char) (new : Value)
  | objectMethod (method : ObjectMethod) (receiver key new : Value)
  | appendString (target rhs : Value)
  | takeCapture (v : Value)
  | cloneValue (v : Value)
  | sortBegin (v : Value)
  | sortStore (guard : Value) (bank index element : Nat)
  | sortValue (guard : Value) (index : Nat)
  | sortCommit (guard : Value) (bank : Nat)
  | vecResize (receiver length fill : Value)
  | iteratorNext (v : Value)
  | invalidate (v : Value)

/-- A call that returns a value. -/
def returning (m : M Value) : M (Option Value) := do
  let v ← m
  pure (some v)

/-- A call that returns nothing. -/
def performing (m : M Unit) : M (Option Value) := do
  m
  pure none

/-- Make a call. -/
def Call.run : Call → M (Option Value)
  | string text => returning (Store.string text)
  | stringFrom v => returning (Store.stringFrom v)
  | list tag values => returning (Store.list tag values)
  | closure code function env => returning (Store.closure code function env)
  | record tag fields => returning (Store.record tag fields)
  | variant tag success payload => returning (Store.variant tag success payload)
  | range start finish => returning (Store.range start finish)
  | rangeValues start finish => returning (Store.rangeValues start finish)
  | otherRange tag args => returning (Store.otherRange tag args)
  | vecWithCapacity capacity => returning (Store.vecWithCapacity capacity)
  | concatString a b => returning (Store.concatString a b)
  | iterator v => returning (Store.iterator v)
  | textSplit v delimiter => returning (Store.textMethodSplit v delimiter)
  | pipelineChars v => returning (Store.pipelineChars v)
  | pipelineAdapter v n take => returning (Store.pipelineAdapter v n take)
  | pipelineChild v => returning (Store.pipelineChild v)
  | retain v => returning (do Store.retain v; pure v)
  | release v => performing (Store.release v)
  | set v index new => performing (Store.set v index new)
  | push v new => performing (Store.push v new)
  | setKey v key new => performing (Store.setKey v key new)
  | fieldSetMut v key new => performing (Store.fieldSetMut v key new)
  | tupleSet v index new => performing (Store.tupleSet v index new)
  | tupleSetMut v index new => performing (Store.tupleSetMut v index new)
  | setRangeField h key new => performing (Store.setRangeField h key new)
  | setOtherRangeField h key new => performing (Store.setOtherRangeField h key new)
  | objectMethod method receiver key new => returning (Store.objectMethod method receiver key new)
  | appendString target rhs => performing (Store.appendString target rhs)
  | takeCapture v => returning (Store.takeCapture v)
  | cloneValue v => returning (Store.cloneValue v)
  | sortBegin v => returning (Store.sortBegin v)
  | sortStore guard bank index element => performing (Store.sortStore guard bank index element)
  | sortValue guard index => returning (Store.sortValue guard index)
  | sortCommit guard bank => performing (Store.sortCommit guard bank)
  | vecResize receiver length fill => performing (Store.vecResize receiver length fill)
  | iteratorNext v => Store.iteratorNext v
  | invalidate v => performing (Store.invalidate v)

/-- The references a call consumes when it returns. -/
def Call.takes : Call → Handle → Nat
  | release v => v.refs
  | _ => 0

/-- What a caller has to own: the reference it releases, and the vector it resizes. -/
def Call.Owned (own : Handle → Nat) : Call → Prop
  | release v => ∀ h, v.refs h ≤ own h
  | vecResize receiver _ _ => ∀ h, receiver = .heap h → 1 ≤ own h
  | _ => True

/-- The stores a program can get to, with the references its callers own. -/
inductive Reach : (Handle → Nat) → Store → Prop
  | new {id : Nat} {limits : Limits} {nominals : Nominals} {allocator : Nat → Bool} {s : Store}
      (created : Store.new id limits nominals allocator = .ok s) : Reach 0 s
  | returned {own : Handle → Nat} {s t : Store} {c : Call} {r : Option Value} (before : Reach own s)
      (owned : c.Owned own) (ran : c.run s = (.ok r, t)) : Reach (own - c.takes + optionRefs r) t
  | failed {own : Handle → Nat} {s t : Store} {c : Call} {e : Error} (before : Reach own s)
      (owned : c.Owned own) (ran : c.run s = (.error e, t)) : Reach own t

/-- The store a call leaves behind. -/
def Call.after (c : Call) (s : Store) : Store := (c.run s).2

/-- No declared types. -/
def noNominals : Nominals := ⟨fun _ _ => false, fun _ => none, fun _ _ => false⟩

/-- A new store of four entries and forty bytes. -/
def small : Store := (reserveInitial ⟨4, 40⟩ (empty 1 ⟨4, 40⟩ noNominals fun _ => true)).2

/-- A new store with more room. -/
def roomy : Store := (reserveInitial ⟨4, 400⟩ (empty 1 ⟨4, 400⟩ noNominals fun _ => true)).2

/-- An empty object and the key `k`, with 39 bytes of the budget left. -/
def crowded : Store := (Call.string ['k']).after ((Call.record .object []).after small)

/-- The references to what `crowded` holds. -/
def crowdedOwn : Handle → Nat := (Value.heap ⟨0, 1⟩).refs + (Value.heap ⟨1, 1⟩).refs

lemma reach_crowded : Reach crowdedOwn crowded := by
  have hcreated : Store.new 1 ⟨4, 40⟩ noNominals (fun _ => true) = .ok small := rfl
  have hobject : Reach (0 - 0 + (Value.heap ⟨0, 1⟩).refs) ((Call.record .object []).after small) :=
    (Reach.new hcreated).returned (c := .record .object []) (r := some (.heap ⟨0, 1⟩)) trivial rfl
  have hkey : Reach (0 - 0 + (Value.heap ⟨0, 1⟩).refs - 0 + (Value.heap ⟨1, 1⟩).refs) crowded :=
    hobject.returned (c := .string ['k']) (r := some (.heap ⟨1, 1⟩)) trivial rfl
  have hown : 0 - 0 + (Value.heap ⟨0, 1⟩).refs - 0 + (Value.heap ⟨1, 1⟩).refs = crowdedOwn := by
    funext k
    simp [crowdedOwn]
  exact hown ▸ hkey

variable {s t : Store} {own : Handle → Nat} {held : Option Hold}

/-! ## The invariant of a new store -/

lemma reserveInitial_spec (limits : Limits) :
    wp (reserveInitial limits) (fun _ t => Reserved s t) (fun _ _ => True) s := by
  refine wp_seq (alloc_spec _) (fun _ _ _ => trivial) ?_
  rintro ⟨⟩ _ ⟨a, rfl⟩
  refine wp_seq (alloc_spec _) (fun _ _ _ => trivial) ?_
  rintro ⟨⟩ _ ⟨b, rfl⟩
  refine wp_mono (alloc_spec _) ?_ fun _ _ _ => trivial
  rintro ⟨⟩ _ ⟨c, rfl⟩
  exact ((Reserved.spent a).trans (.spent b)).trans (.spent c)

lemma empty_inv {id : Nat} {limits : Limits} {nominals : Nominals} {allocator : Nat → Bool}
    (hentries : limits.entries ≤ maxEntries) (hbytes : limits.bytes ≤ isizeMax) :
    Inv 0 none (empty id limits nominals allocator) where
  counts :=
    { balance := fun _ => rfl
      alive := fun h e he => by cases he
      edges := rfl
      bytes := rfl
      bytes_le := Nat.zero_le _
      live := rfl
      queued := fun v hv => by cases hv
      room := by
        change 0 + 0 + 1 ≤ 64
        omega }
  table :=
    { isOpen := rfl
      order := ⟨[], by constructor <;> simp [empty], fun i => by simp [empty, cell]⟩
      free_nodup := List.nodup_nil
      free_vacant := fun i hi => by cases hi
      vacant_free := fun i sl hsl => by cases hsl
      generation := fun i sl hsl => by cases hsl
      free_cap := Nat.zero_le _
      slots_le := Nat.zero_le _
      entries_le := Nat.lt_of_le_of_lt hentries (by decide)
      limit_le := hbytes }
  leases := fun h e he => by cases he
  held_owned := fun d hd => by cases hd

/-- A new store is an empty one with its reservations made. -/
lemma new_reserved {id : Nat} {limits : Limits} {nominals : Nominals} {allocator : Nat → Bool}
    (hs : Store.new id limits nominals allocator = .ok s) :
    limits.entries ≤ maxEntries ∧ limits.bytes ≤ isizeMax ∧
      Reserved (empty id limits nominals allocator) s := by
  unfold Store.new at hs
  split_ifs at hs with hlim
  simp only [not_or, Nat.not_lt] at hlim
  have hspec := reserveInitial_spec (s := empty id limits nominals allocator) limits
  unfold wp at hspec
  split at hs
  · next t ht =>
    obtain rfl := Except.ok.inj hs
    rw [ht] at hspec
    exact ⟨by omega, by omega, hspec⟩
  · cases hs

lemma new_inv {id : Nat} {limits : Limits} {nominals : Nominals} {allocator : Nat → Bool}
    (hs : Store.new id limits nominals allocator = .ok s) : Inv 0 none s ∧ s.work = [] := by
  obtain ⟨hentries, hbytes, hr⟩ := new_reserved hs
  exact ⟨(empty_inv hentries hbytes).reserved hr, hr.work⟩

/-! ## What one call keeps -/

/-- Calls that leave the store as it was when they fail, up to slots used and given back. -/
def Call.transactional : Call → Bool
  | release _ | sortCommit _ _ | vecResize _ _ _ | iteratorNext _ | invalidate _ => false
  | _ => true

/-- Calls that publish part of their result before a later step can fail. -/
def Call.buildsParts : Call → Bool
  | objectMethod _ _ _ _ | cloneValue _ => true
  | _ => false

/-- A call that succeeds keeps the invariant, and one that fails only reserves. -/
def Call.IsAtomic (c : Call) : Prop :=
  ∀ {own s}, Inv own none s → s.work = [] → Atomic own none optionRefs c.run s

lemma isAtomic_returning {m : M Value} {c : Call} (hc : c.run = returning m)
    (hm : ∀ {own s}, Inv own none s → s.work = [] → Atomic own none Value.refs m s) :
    c.IsAtomic := by
  intro own s hi hw
  rw [hc]
  exact AtomicFrom.bind (hm hi hw) fun _ _ hit hwt => ⟨hit, hwt⟩

lemma isAtomic_performing {m : M Unit} {c : Call} (hc : c.run = performing m)
    (hm : ∀ {own s}, Inv own none s → s.work = [] → Atomic own none (fun _ => 0) m s) :
    c.IsAtomic := by
  intro own s hi hw
  rw [hc]
  refine AtomicFrom.bind (hm hi hw) fun _ _ hit hwt => ⟨?_, hwt⟩
  simpa using hit

/-- Every transactional call but the two that build parts first is atomic. -/
lemma Call.isAtomic {c : Call} (hc : c.transactional = true) (hb : c.buildsParts = false) :
    c.IsAtomic := by
  cases c with
  | string text => exact isAtomic_returning rfl fun hi hw => string_atomic hi hw (.refl _) _
  | stringFrom v => exact isAtomic_returning rfl fun hi hw => stringFrom_atomic hi hw (.refl _) _
  | list tag values => exact isAtomic_returning rfl fun hi hw => list_atomic hi hw (.refl _) _ _
  | closure code function env =>
      exact isAtomic_returning rfl fun hi hw => closure_atomic hi hw (.refl _) _ _ _
  | record tag fields => exact isAtomic_returning rfl fun hi hw => record_atomic hi hw (.refl _) _ _
  | variant tag success payload =>
      exact isAtomic_returning rfl fun hi hw => variant_atomic hi hw (.refl _) _ _ _
  | range start finish =>
      exact isAtomic_returning rfl fun hi hw => admit_atomic hi hw (.refl _) ⟨rfl, rfl⟩
  | rangeValues start finish =>
      exact isAtomic_returning rfl fun hi hw => rangeValues_atomic hi hw (.refl _) _ _
  | otherRange tag args =>
      exact isAtomic_returning rfl fun hi hw => otherRange_atomic hi hw (.refl _) _ _
  | vecWithCapacity capacity =>
      exact isAtomic_returning rfl fun hi hw => vecWithCapacity_atomic hi hw (.refl _) _
  | concatString a b =>
      exact isAtomic_returning rfl fun hi hw => concatString_atomic hi hw (.refl _) _ _
  | iterator v => exact isAtomic_returning rfl fun hi hw => iterator_atomic hi hw _
  | textSplit v delimiter => exact isAtomic_returning rfl fun hi hw => textMethodSplit_atomic hi hw _ _
  | pipelineChars v => exact isAtomic_returning rfl fun hi hw => pipelineChars_atomic hi hw _
  | pipelineAdapter v n take =>
      exact isAtomic_returning rfl fun hi hw => pipelineAdapter_atomic hi hw _ _ _
  | pipelineChild v => exact isAtomic_returning rfl fun hi hw => pipelineChild_atomic hi hw _
  | retain v => exact isAtomic_returning rfl fun hi hw => retained_atomic hi hw _
  | set v index new => exact isAtomic_performing rfl fun hi hw => set_atomic hi _ _ _
  | push v new => exact isAtomic_performing rfl fun hi hw => push_atomic hi hw _ _
  | setKey v key new => exact isAtomic_performing rfl fun hi hw => setKey_atomic hi hw _ _ _
  | fieldSetMut v key new => exact isAtomic_performing rfl fun hi hw => fieldSetMut_atomic hi hw _ _ _
  | tupleSet v index new => exact isAtomic_performing rfl fun hi hw => tupleSet_atomic hi hw _ _ _
  | tupleSetMut v index new =>
      exact isAtomic_performing rfl fun hi hw => tupleSetMut_atomic hi hw _ _ _
  | setRangeField h key new =>
      exact isAtomic_performing rfl fun hi hw => setRangeField_atomic hi _ _ _
  | setOtherRangeField h key new =>
      exact isAtomic_performing rfl fun hi hw => setOtherRangeField_atomic hi _ _ _
  | appendString target rhs =>
      exact isAtomic_performing rfl fun hi hw => appendString_atomic hi hw _ _
  | takeCapture v => exact isAtomic_returning rfl fun hi hw => takeCapture_atomic hi hw _
  | sortBegin v => exact isAtomic_returning rfl fun hi hw => sortBegin_atomic hi hw _
  | sortStore guard bank index element =>
      exact isAtomic_performing rfl fun hi hw => sortStore_atomic hi hw _ _ _ _
  | sortValue guard index => exact isAtomic_returning rfl fun hi hw => sortValue_atomic hi hw _ _
  | objectMethod => cases hb
  | cloneValue => cases hb
  | release => cases hc
  | sortCommit => cases hc
  | vecResize => cases hc
  | iteratorNext => cases hc
  | invalidate => cases hc

lemma undoes_returning {m : M Value} (hm : Undoes own held Value.refs m s) :
    Undoes own held optionRefs (returning m) s :=
  wp_seq hm (fun _ _ h => h) fun _ _ h => h

lemma keeps_performing {m : M Unit} (hm : Keeps own held (fun _ => 0) m s) :
    Keeps own held optionRefs (performing m) s :=
  wp_seq hm (fun _ _ h => h) fun _ _ h => ⟨by simpa using h.1, h.2⟩

/-- A transactional call undoes what it built when it fails. -/
lemma Call.undoes {c : Call} (hi : Inv own none s) (hw : s.work = [])
    (hc : c.transactional = true) : Undoes own none optionRefs c.run s := by
  by_cases hb : c.buildsParts = false
  · exact Atomic.undoes (Call.isAtomic hc hb hi hw) hi
  · cases c with
    | objectMethod method receiver key new =>
        exact undoes_returning (objectMethod_undoes hi hw method receiver key new)
    | cloneValue v => exact undoes_returning (cloneValue_undoes hi hw v)
    | _ => exact absurd rfl hb

lemma Call.takes_of_transactional {c : Call} (hc : c.transactional = true) : c.takes = 0 := by
  cases c with
  | release => cases hc
  | _ => rfl

/-- What one call does to the invariant. -/
lemma Call.run_spec {c : Call} (hi : Inv own none s) (hw : s.work = []) (ho : c.Owned own) :
    wp c.run (fun r t => Inv (own - c.takes + optionRefs r) none t ∧ t.work = [])
      (fun _ t => Inv own none t ∧ t.work = []) s := by
  by_cases hc : c.transactional = true
  · have hown : own - c.takes = own := by
      rw [Call.takes_of_transactional hc]
      rfl
    rw [hown]
    exact (Call.undoes hi hw hc).keeps hw
  · have hkeeps : (∀ v, c ≠ .release v) → Keeps own none optionRefs c.run s := by
      intro hr
      cases c with
      | release v => exact absurd rfl (hr v)
      | sortCommit guard bank => exact keeps_performing (sortCommit_keeps hi hw guard bank)
      | vecResize receiver length fill =>
          exact keeps_performing (vecResize_keeps hi hw receiver length fill ho)
      | iteratorNext v => exact iteratorNext_keeps hi hw v
      | invalidate v => exact keeps_performing (invalidate_keeps hi hw v)
      | _ => exact absurd rfl hc
    cases c with
    | release v =>
        have hsub : own - v.refs + v.refs = own := funext fun h => Nat.sub_add_cancel (ho h)
        rw [← hsub] at hi
        refine wp_seq (release_spec hi fun d hd => by cases hd) (fun _ _ h => h.elim) ?_
        rintro ⟨⟩ t ⟨hit, hwt⟩
        exact ⟨by simpa [Call.takes] using hit, hwt⟩
    | _ => exact hkeeps (by simp)

/-! ## Reachable stores -/

/-- In every reachable store the representation invariant holds and nothing is queued. -/
theorem reach_inv (hr : Reach own s) : Inv own none s ∧ s.work = [] := by
  induction hr with
  | new created => exact new_inv created
  | returned before owned ran ih => exact (wp_run ran (Call.run_spec ih.1 ih.2 owned)).1 _ rfl
  | failed before owned ran ih => exact (wp_run ran (Call.run_spec ih.1 ih.2 owned)).2 _ rfl

/-- The invariant of a store with two entries. -/
theorem reach_inv_crowded : Inv crowdedOwn none crowded ∧ crowded.work = [] :=
  reach_inv reach_crowded

/-- The entries a release frees are closed under losing the last reference. -/
lemma closedUnder_gone {v : Value} (ht : Inv own held t)
    (hcount : ∀ k, s.strongAt k = t.strongAt k + v.refs k + s.dropped (GoneIn s t) k) :
    s.ClosedUnder v (GoneIn s t) := by
  intro k hk hle
  refine ⟨hk, ?_⟩
  rcases hkt : t.at? k with _ | x
  · rfl
  · have hpos := ht.counts.alive k x hkt
    have := hcount k
    rw [strongAt_of_at? hkt] at this
    omega

/-- A release of an owned value returns, with nothing left queued.  What it frees is the least
set of entries that is closed under losing the last reference, so entries on a cycle stay; the
counts of the others fall by exactly the references given up. -/
theorem reach_release {v : Value} (hr : Reach own s) (hv : ∀ h, v.refs h ≤ own h) :
    ∃ t, release v s = (.ok (), t) ∧ Reach (own - v.refs) t ∧ t.work = [] ∧
      (∀ h, (t.at? h).isSome = true → (s.at? h).isSome = true) ∧
      (∀ h, s.strongAt h = t.strongAt h + v.refs h + s.dropped (GoneIn s t) h) ∧
      s.ClosedUnder v (GoneIn s t) ∧ ∀ F, s.ClosedUnder v F → ∀ h, GoneIn s t h → F h := by
  obtain ⟨hi, hw⟩ := reach_inv hr
  have hsub : own - v.refs + v.refs = own := funext fun h => Nat.sub_add_cancel (hv h)
  rw [← hsub] at hi
  have hspec := release_frees hi hw fun d hd => by cases hd
  unfold wp at hspec
  rcases hrun : release v s with ⟨x | u, t⟩
  · rw [hrun] at hspec
    exact hspec.elim
  · rw [hrun] at hspec
    obtain ⟨hit, hwt, hfewer, hcount, hleast⟩ := hspec
    refine ⟨t, rfl, ?_, hwt, hfewer, hcount, closedUnder_gone hit hcount, hleast⟩
    have hcall : (Call.release v).run s = (.ok none, t) := run_bind hrun
    have := hr.returned (c := .release v) hv hcall
    simpa [Call.takes] using this

/-- The key of `crowded` can be released. -/
theorem reach_release_crowded : ∃ t, release (.heap ⟨1, 1⟩) crowded = (.ok (), t) ∧ t.work = [] :=
  have ⟨t, hrun, _, hw, _⟩ := reach_release (v := .heap ⟨1, 1⟩) reach_crowded
    fun _ => Nat.le_add_left _ _
  ⟨t, hrun, hw⟩

end Store

end Rnx
