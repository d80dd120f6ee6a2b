import Rnx.Lib.Transition
import Rnx.Native.Accounts

/-!
# The cache of a thread over its runs

Checkouts, builds, guard drops and evictions in any order.  Between two events no build is under
way, so the invariant of the cache holds without a mark; each event keeps it, and the accounts of
the cache over every run follow by the one induction over runs.
-/

namespace Rnx

namespace Native

variable {z : Sizes} {limits : Limits z} {c d : Cache} {guards : List Program} {w : World}

/-! ## Replacing, adding and removing entries -/

lemma Tended.of_eq {mark : Option (Nat × Charge)} (h : Tended limits guards mark c)
    (hentries : d.entries = c.entries) (hcharge : d.charge = c.charge) :
    Tended limits guards mark d := by
  have hmapped : d.mapped = c.mapped := congrArg Charge.mapped hcharge
  have hmetadata : d.metadata = c.metadata := congrArg Charge.metadata hcharge
  constructor
  · constructor
    · rw [hentries]
      exact h.bounded.codes
    · rw [hentries]
      exact h.bounded.length
    · rw [hentries, hcharge]
      exact h.bounded.sums
    · rw [hmapped]
      exact h.bounded.mapped
    · rw [hmetadata]
      exact h.bounded.metadata
  · rw [hentries]
    exact h.kept
  · rw [hentries]
    exact h.out
  · rw [hentries]
    exact h.marked

/-- The entries beside one of a code have other codes. -/
lemma Bounded.others {l r : List Entry} {e : Entry} (h : Bounded limits c)
    (hsplit : c.entries = l ++ e :: r) : ∀ x ∈ l ++ r, x.code ≠ e.code := by
  intro x hx hcode
  have hcodes := h.codes
  have hperm : (l ++ e :: r).Perm (e :: (l ++ r)) := List.perm_middle
  rw [hsplit, (hperm.map Entry.code).nodup_iff, List.map_cons, List.nodup_cons] at hcodes
  apply hcodes.1
  rw [← hcode]
  exact List.mem_map_of_mem hx

lemma mem_split {l r : List Entry} {e : Entry} (x : Entry) :
    x ∈ l ++ e :: r ↔ x = e ∨ x ∈ l ++ r := by
  rw [List.perm_middle.mem_iff, List.mem_cons]

/-- Replacing an entry by one of the same code and charge, after which no build is under way.
The guards of other codes stay as they are. -/
lemma Tended.replace {guards' : List Program} {mark : Option (Nat × Charge)} {l r : List Entry}
    {e : Entry} (e' : Entry) (h : Tended limits guards mark c) (hsplit : c.entries = l ++ e :: r)
    (hentries : d.entries = l ++ e' :: r) (hsums : d.charge = c.charge) (hcode : e'.code = e.code)
    (hcharge : e'.charge = e.charge) (hkept : Kept z guards' none e')
    (hmark : ∀ code charge, mark = some (code, charge) → code = e.code)
    (hguards : ∀ p : Program, p.regions.code ≠ e.code → (p ∈ guards' ↔ p ∈ guards))
    (hout : ∀ p ∈ guards', p.regions.code = e.code → e'.resident = .checkedOut) :
    Tended limits guards' none d := by
  have hothers := h.bounded.others hsplit
  constructor
  · constructor
    · have hcodes := h.bounded.codes
      rw [hsplit, List.map_append, List.map_cons] at hcodes
      rw [hentries, List.map_append, List.map_cons, hcode]
      exact hcodes
    · have hlength := h.bounded.length
      rw [hsplit, List.length_append, List.length_cons] at hlength
      rw [hentries, List.length_append, List.length_cons]
      exact hlength
    · rw [hsums, h.bounded.sums, hsplit, hentries, total_append, total_append, total_cons,
        total_cons, hcharge]
    · rw [show d.mapped = c.mapped from congrArg Charge.mapped hsums]
      exact h.bounded.mapped
    · rw [show d.metadata = c.metadata from congrArg Charge.metadata hsums]
      exact h.bounded.metadata
  · intro x hx
    rw [hentries, mem_split] at hx
    obtain rfl | hx := hx
    · exact hkept
    · have hne := hothers x hx
      have hold := h.kept x (by rw [hsplit, mem_split]; exact .inr hx)
      unfold Kept at hold ⊢
      cases hresident : x.resident with
      | ready program =>
          rw [hresident] at hold
          exact hold
      | empty summary =>
          rw [hresident] at hold
          exact hold
      | checkedOut =>
          rw [hresident] at hold
          obtain ⟨p, hp, hpcode, hpcharge⟩ := hold
          exact ⟨p, (hguards p (hpcode ▸ hne)).2 hp, hpcode, hpcharge⟩
      | building =>
          rw [hresident] at hold
          exact absurd (hmark _ _ hold) hne
  · intro p hp
    by_cases hpcode : p.regions.code = e.code
    · refine ⟨e', ?_, hcode.trans hpcode.symm, hout p hp hpcode⟩
      rw [hentries, mem_split]
      exact .inl rfl
    · obtain ⟨x, hx, hxcode, hxout⟩ := h.out p ((hguards p hpcode).1 hp)
      rw [hsplit, mem_split] at hx
      obtain rfl | hx := hx
      · exact absurd hxcode.symm hpcode
      · refine ⟨x, ?_, hxcode, hxout⟩
        rw [hentries, mem_split]
        exact .inr hx
  · intro code charge hnone
    cases hnone

/-- A marker of a code the cache does not know yet, charged nothing. -/
lemma Tended.enter {code lastUse : Nat} (h : Tended limits guards none c)
    (hnew : ∀ e ∈ c.entries, e.code ≠ code) (hroom : c.entries.length < limits.cachedPrograms) :
    Tended limits guards (some (code, 0))
      { c with entries := c.entries ++ [⟨code, lastUse, 0, 0, .building⟩] } := by
  constructor
  · constructor
    · show ((c.entries ++ [_]).map Entry.code).Nodup
      rw [List.map_append, List.nodup_append]
      refine ⟨h.bounded.codes, List.nodup_singleton _, ?_⟩
      intro a ha b hb heq
      obtain ⟨e, he, rfl⟩ := List.mem_map.1 ha
      obtain rfl := List.mem_singleton.1 hb
      exact hnew e he heq
    · show (c.entries ++ [_]).length ≤ _
      rw [List.length_append]
      exact hroom
    · show c.charge = total (c.entries ++ [_])
      rw [total_append, total_cons, h.bounded.sums]
      rfl
    · exact h.bounded.mapped
    · exact h.bounded.metadata
  · intro e he
    obtain he | he := List.mem_append.1 he
    · have hold := h.kept e he
      unfold Kept at hold ⊢
      cases hresident : e.resident with
      | building =>
          rw [hresident] at hold
          cases hold
      | checkedOut | ready program | empty summary =>
          rw [hresident] at hold
          exact hold
    · obtain rfl := List.mem_singleton.1 he
      rfl
  · intro p hp
    obtain ⟨e, he, hcode, hout⟩ := h.out p hp
    exact ⟨e, List.mem_append_left _ he, hcode, hout⟩
  · intro code' charge hmark
    obtain ⟨rfl, rfl⟩ := Prod.mk.inj (Option.some.inj hmark)
    exact ⟨_, List.mem_append_right _ List.mem_cons_self, rfl, rfl, rfl⟩

/-- An entry found by its code. -/
lemma position_entry {code index : Nat} (h : c.position code = some index) :
    ∃ l e r, c.entries = l ++ e :: r ∧ index = l.length ∧ e.code = code ∧
      c.entries[index]? = some e := by
  obtain ⟨l, e, r, hsplit, hlength, hcode⟩ := position_split h
  refine ⟨l, e, r, hsplit, hlength.symm, hcode, ?_⟩
  rw [hsplit, ← hlength]
  exact getElem?_split l r e

/-- The entry of a guard's code is the one it has checked out. -/
lemma Tended.guarded {mark : Option (Nat × Charge)} {e : Entry} {p : Program}
    (h : Tended limits guards mark c) (he : e ∈ c.entries) (hp : p ∈ guards)
    (hcode : p.regions.code = e.code) : e.resident = .checkedOut := by
  obtain ⟨x, hx, hxcode, hout⟩ := h.out p hp
  have heq : x = e := List.inj_on_of_nodup_map h.bounded.codes hx he (hxcode.trans hcode)
  exact heq ▸ hout

/-! ## The events -/

/-- What a checkout leaves behind: the guard of a program no other guard holds, or nothing new. -/
def Answered (limits : Limits z) (guards : List Program) (code : Nat) (d : Cache) :
    Checkout → Prop
  | .native p => p.regions.code = code ∧ (∀ q ∈ guards, q.regions.code ≠ code) ∧
      Tended limits (guards ++ [p]) none d
  | .interpret _ => Tended limits guards none d

/-- A program leaves its entry with the guard of the invocation. -/
lemma Tended.lend {mark : Option (Nat × Charge)} {l r : List Entry} {e : Entry} {p : Program}
    (e' : Entry) (h : Tended limits guards mark c) (hsplit : c.entries = l ++ e :: r)
    (hmark : ∀ code charge, mark = some (code, charge) → code = e.code)
    (hresident : e.resident ≠ .checkedOut) (hp : p.regions.code = e.code)
    (hpcharge : e.charge = p.charge z) (hentries : d.entries = l ++ e' :: r)
    (hsums : d.charge = c.charge) (hcode : e'.code = e.code) (hcharge : e'.charge = e.charge)
    (hout : e'.resident = .checkedOut) : Answered limits guards e.code d (.native p) := by
  have he : e ∈ c.entries := by
    rw [hsplit, mem_split]
    exact .inl rfl
  refine ⟨hp, ?_, ?_⟩
  · intro q hq hqcode
    exact hresident (h.guarded he hq hqcode)
  · apply h.replace e' hsplit hentries hsums hcode hcharge
    · unfold Kept
      rw [hout]
      exact ⟨p, List.mem_append_right _ List.mem_cons_self, hp.trans hcode.symm,
        hcharge.trans hpcharge⟩
    · exact hmark
    · intro q hq
      rw [List.mem_append, List.mem_singleton]
      constructor
      · intro hmem
        obtain hmem | rfl := hmem
        · exact hmem
        · exact absurd hp hq
      · exact .inl
    · intro q _ _
      exact hout

/-- Only the last use of an entry changes. -/
lemma Tended.touch {l r : List Entry} {e : Entry} (lastUse : Nat)
    (h : Tended limits guards none c) (hsplit : c.entries = l ++ e :: r)
    (hentries : d.entries = l ++ { e with lastUse := lastUse } :: r)
    (hsums : d.charge = c.charge) : Tended limits guards none d := by
  have he : e ∈ c.entries := by
    rw [hsplit, mem_split]
    exact .inl rfl
  apply h.replace { e with lastUse := lastUse } hsplit hentries hsums rfl rfl
  · exact h.kept e he
  · intro code charge hmark
    cases hmark
  · intro p _
    exact Iff.rfl
  · intro p hp hcode
    show e.resident = .checkedOut
    exact h.guarded he hp hcode

/-- A code the cache knows is answered at once. -/
lemma admitBuild_known {code index : Nat} (h : Tended limits guards none c)
    (hposition : c.position code = some index) :
    ∃ d answer, c.admitBuild limits w code = .ok (d, some answer) ∧
      Answered limits guards code d answer := by
  obtain ⟨l, e, r, hsplit, rfl, hcode, -⟩ := position_entry hposition
  have he : e ∈ c.entries := by
    rw [hsplit, mem_split]
    exact .inl rfl
  have hposition' : ({ c with tick := c.tick + 1 } : Cache).position code = some l.length :=
    hposition
  unfold Cache.admitBuild
  simp only [hposition']
  simp only [hsplit, modify_split, getElem?_split, set_split]
  have hkept := h.kept e he
  unfold Kept at hkept
  have htouch : ∀ noRegions, Answered limits guards code
      { c with entries := l ++ { e with lastUse := c.tick + 1 } :: r, tick := c.tick + 1 }
      (.interpret noRegions) := fun _ => h.touch (c.tick + 1) hsplit rfl rfl
  cases hresident : e.resident with
  | building =>
      rw [hresident] at hkept
      cases hkept
  | checkedOut =>
      rw [hresident] at htouch
      exact ⟨_, _, rfl, htouch false⟩
  | empty summary =>
      rw [hresident] at htouch
      exact ⟨_, _, rfl, htouch (summary.regions == 0)⟩
  | ready program =>
      rw [hresident] at hkept
      refine ⟨_, _, rfl, ?_⟩
      rw [← hcode]
      apply h.lend { e with lastUse := c.tick + 1, resident := .checkedOut } hsplit
      · intro code' charge hmark
        cases hmark
      · rw [hresident]
        intro hout
        cases hout
      · exact hkept.1
      · exact hkept.2
      · rfl
      · rfl
      · rfl
      · rfl
      · rfl

/-- Where there is room, a marker is entered if its allocation succeeds. -/
lemma enter_spec {code : Nat} (w : World) (room : Bool) (h : Tended limits guards none c)
    (hnew : ∀ e ∈ c.entries, e.code ≠ code)
    (hroom : room = true → c.entries.length < limits.cachedPrograms) :
    ∃ d answer, (if (room && w.alloc .entry 0) = true then
        .ok ({ c with entries := c.entries ++ [⟨code, c.tick, 0, 0, .building⟩] }, none)
      else .ok (c, some (.interpret false)) : Except Fault (Cache × Option Checkout)) =
        .ok (d, answer) ∧
      ((answer = none ∧ Tended limits guards (some (code, 0)) d) ∨
        (answer = some (.interpret false) ∧ Tended limits guards none d)) := by
  by_cases hgo : (room && w.alloc .entry 0) = true
  · rw [if_pos hgo]
    rw [Bool.and_eq_true] at hgo
    exact ⟨_, none, rfl, .inl ⟨rfl, h.enter hnew (hroom hgo.1)⟩⟩
  · rw [if_neg hgo]
    exact ⟨c, _, rfl, .inr ⟨rfl, h⟩⟩

/-- A code the cache does not know makes room for a marker, or is interpreted. -/
lemma admitBuild_unknown {code : Nat} (h : Tended limits guards none c)
    (hposition : c.position code = none) :
    ∃ d answer, c.admitBuild limits w code = .ok (d, answer) ∧
      ((answer = none ∧ Tended limits guards (some (code, 0)) d) ∨
        (answer = some (.interpret false) ∧ Tended limits guards none d)) := by
  have hnew := position_none hposition
  have htick : Tended limits guards none { c with tick := c.tick + 1 } := h.of_eq rfl rfl
  have hposition' : ({ c with tick := c.tick + 1 } : Cache).position code = none := hposition
  unfold Cache.admitBuild
  simp only [hposition', bind, Except.bind]
  by_cases hfull : limits.cachedPrograms ≤ c.entries.length
  · obtain ⟨d, evicted, hevict, hd⟩ := evictLru_spec htick.bounded code
    rw [if_pos hfull, hevict]
    obtain ⟨rfl, rfl⟩ | ⟨e, rfl, hfree, _, hremoved⟩ := hd
    · apply enter_spec w false htick hnew
      intro hroom
      cases hroom
    · apply enter_spec w true (hremoved.tended hfree htick)
      · intro x hx
        exact hnew x (hremoved.mem.2 (.inr hx))
      · intro _
        -- The entry that went makes place for one more.
        have hlength : c.entries.length = d.entries.length + 1 := hremoved.entries.length_eq
        have hle := h.bounded.length
        omega
  · rw [if_neg hfull]
    apply enter_spec w true htick hnew
    intro _
    exact Nat.lt_of_not_le hfull

/-- A build starts with nothing loaded and nothing charged. -/
lemma Accounted.start {code : Nat} (h : Tended limits guards (some (code, 0)) c) :
    Accounted limits guards code ⟨c, Build.new limits w code⟩ := by
  have howed : (Build.new limits w code).owed z Flight.none = 0 := by
    unfold Build.owed Artifacts.charge Activations.charge shellCharge Flight.charge
    rfl
  refine ⟨(Build.new limits w code).artifacts, rfl, ?_⟩
  constructor
  · rfl
  · rw [howed]
    exact h
  · rw [howed]
    rfl
  · simp [Build.new, Artifacts.loads, Build.artifacts, Flight.none]
  · simp [Build.new]
  · intro hattempted
    cases hattempted
  · intro hloaded
    obtain hloaded | hshell := hloaded
    · exact absurd rfl hloaded
    · cases hshell
  · intro _
    rfl
  · intro _
    rfl

/-- What a finished build leaves in its entry. -/
lemma settle_spec {id : Nat} {s : Work} (h : Finished limits guards id s) :
    ∃ d answer, s.cache.settle s.build = .ok (d, answer) ∧ Answered limits guards id d answer := by
  obtain ⟨l, e, r, hposition, hsplit, hcode, hbuilding, hcharge⟩ := h.cache.marked_split
  have hmark : ∀ code charge, some (id, if s.build.summary.loaded = 0 then 0
      else s.build.program.charge z) = some (code, charge) → code = e.code := by
    intro code charge hmark
    rw [hcode]
    exact (Prod.mk.inj (Option.some.inj hmark)).1.symm
  unfold Cache.settle
  rw [h.id_eq, hposition]
  simp only [hsplit, modify_split]
  have hkept := h.cache
  by_cases hnone : s.build.summary.loaded = 0
  · rw [if_pos hnone] at hcharge hkept
    rw [if_pos hnone]
    refine ⟨_, _, rfl, ?_⟩
    show Tended limits guards none _
    apply hkept.replace { e with resident := .empty s.build.summary } hsplit
    · rfl
    · rfl
    · rfl
    · rfl
    · exact hcharge
    · rwa [if_pos hnone] at hmark
    · intro p _
      exact Iff.rfl
    · intro p hp hpcode
      have hout := hkept.guarded (by rw [hsplit, mem_split]; exact .inl rfl) hp hpcode
      rw [hbuilding] at hout
      cases hout
  · rw [if_neg hnone] at hcharge hkept hmark
    rw [if_neg hnone, if_neg (by rw [h.descriptor hnone]; exact Bool.noConfusion)]
    refine ⟨_, _, rfl, ?_⟩
    have hprogram : s.build.program.regions.code = e.code := by
      rw [hcode, ← h.id_eq]
      unfold Build.program
      split_ifs <;> rfl
    rw [← hcode]
    apply hkept.lend { e with resident := .checkedOut } hsplit hmark
    · rw [hbuilding]
      intro hout
      cases hout
    · exact hprogram
    · exact hcharge
    · rfl
    · rfl
    · rfl
    · rfl
    · rfl

/-- An unwound build takes its marker and its charge along. -/
lemma dropMarker_spec {code : Nat} {charge : Charge}
    (h : Tended limits guards (some (code, charge)) c) :
    ∃ d, c.dropMarker code = .ok d ∧ Tended limits guards none d ∧
      ∀ e ∈ d.entries, e.code ≠ code := by
  obtain ⟨l, e, r, hposition, hsplit, hcode, hbuilding, hcharge⟩ := h.marked_split
  obtain ⟨d, hremove, hremoved⟩ := remove_spec hsplit h.bounded.sums
  have hget : c.entries[l.length]? = some e := by
    rw [hsplit, getElem?_split]
  have hgone : ∀ x ∈ d.entries, x.code ≠ code := by
    intro x hx hxcode
    have hcodes := h.bounded.codes
    rw [(hremoved.entries.map Entry.code).nodup_iff, List.map_cons, List.nodup_cons] at hcodes
    apply hcodes.1
    rw [hcode, ← hxcode]
    exact List.mem_map_of_mem hx
  refine ⟨d, ?_, ?_, hgone⟩
  · unfold Cache.dropMarker
    obtain ⟨ecode, lastUse, mapped, metadata, resident⟩ := e
    obtain rfl : resident = .building := hbuilding
    rw [hposition]
    simp only [hget, hremove, bind, Except.bind]
  · constructor
    · exact hremoved.bounded h.bounded
    · intro x hx
      have hold := h.kept x (hremoved.mem.2 (.inr hx))
      unfold Kept at hold ⊢
      cases hresident : x.resident with
      | building =>
          rw [hresident] at hold
          exact absurd (Prod.mk.inj (Option.some.inj hold)).1.symm (hgone x hx)
      | checkedOut | ready program | empty summary =>
          rw [hresident] at hold
          exact hold
    · intro p hp
      obtain ⟨x, hx, hxcode, hout⟩ := h.out p hp
      obtain rfl | hx := hremoved.mem.1 hx
      · rw [hbuilding] at hout
        cases hout
      · exact ⟨x, hx, hxcode, hout⟩
    · intro code' charge' hmark
      cases hmark

/-- A checkout answers, or its build unwinds and leaves nothing of the code behind. -/
lemma checkout_spec (code : Nat) (h : Tended limits guards none c) :
    ∃ d answer, c.checkout limits w code = .ok (d, answer) ∧
      (∀ a, answer = some a → Answered limits guards code d a) ∧
      (answer = none → Tended limits guards none d ∧ ∀ e ∈ d.entries, e.code ≠ code) := by
  unfold Cache.checkout
  cases hposition : c.position code with
  | some index =>
      obtain ⟨d, answer, hrun, hd⟩ := admitBuild_known (w := w) h hposition
      rw [hrun]
      refine ⟨d, some answer, rfl, ?_, ?_⟩
      · intro a ha
        obtain rfl := Option.some.inj ha
        exact hd
      · intro hnone
        cases hnone
  | none =>
      obtain ⟨d, answer, hrun, ⟨rfl, hd⟩ | ⟨rfl, hd⟩⟩ := admitBuild_unknown (w := w) h hposition
      · rw [hrun]
        simp only [bind, Except.bind]
        have hbuild := build_spec (w := w) (Accounted.start (w := w) hd)
        unfold ErrState.wp at hbuild
        generalize build limits w ⟨d, Build.new limits w code⟩ = run at hbuild
        obtain ⟨result, s⟩ := run
        cases result with
        | ok x =>
            obtain ⟨d', answer, hsettle, hanswer⟩ := settle_spec hbuild
            simp only [hsettle]
            refine ⟨d', some answer, rfl, ?_, ?_⟩
            · intro a ha
              obtain rfl := Option.some.inj ha
              exact hanswer
            · intro hnone
              cases hnone
        | error fault =>
            obtain ⟨rfl, charge, hmarked⟩ := hbuild
            obtain ⟨d', hdrop, hd', hgone⟩ := dropMarker_spec hmarked
            simp only [hdrop]
            refine ⟨d', none, rfl, ?_, ?_⟩
            · intro a ha
              cases ha
            · intro _
              exact ⟨hd', hgone⟩
      · rw [hrun]
        refine ⟨d, some (.interpret false), rfl, ?_, ?_⟩
        · intro a ha
          obtain rfl := Option.some.inj ha
          exact hd
        · intro hnone
          cases hnone

/-- A guard that drops puts its program back into the entry it was taken from. -/
lemma putBack_spec {index : Nat} {p : Program} (h : Tended limits guards none c)
    (hdistinct : (guards.map fun p => p.regions.code).Nodup) (hp : guards[index]? = some p) :
    Tended limits (guards.eraseIdx index) none (c.putBack p) := by
  obtain ⟨hlt, rfl⟩ := List.getElem?_eq_some_iff.1 hp
  have hperm : (guards[index] :: guards.eraseIdx index).Perm guards :=
    List.getElem_cons_eraseIdx_perm hlt
  have hmem : guards[index] ∈ guards := List.getElem_mem hlt
  obtain ⟨x, hx, hxcode, hxout⟩ := h.out _ hmem
  obtain ⟨position, hposition⟩ := position_mem ⟨x, hx, hxcode⟩
  obtain ⟨l, e, r, hsplit, rfl, hcode, hget⟩ := position_entry hposition
  have he : e ∈ c.entries := by
    rw [hsplit, mem_split]
    exact .inl rfl
  have hout : e.resident = .checkedOut := h.guarded he hmem hcode.symm
  have hrest : ∀ q ∈ guards.eraseIdx index, q.regions.code ≠ e.code := by
    intro q hq hqcode
    rw [← (hperm.map _).nodup_iff, List.map_cons, List.nodup_cons] at hdistinct
    apply hdistinct.1
    rw [← hcode, ← hqcode]
    exact List.mem_map_of_mem hq
  have hkept := h.kept e he
  unfold Kept at hkept
  rw [hout] at hkept
  obtain ⟨q, hq, hqcode, hqcharge⟩ := hkept
  have hqp : q = guards[index] := by
    rw [← hperm.mem_iff, List.mem_cons] at hq
    obtain hq | hq := hq
    · exact hq
    · exact absurd hqcode (hrest q hq)
  have hrun : c.putBack guards[index] = { c with
      entries := l ++ { e with resident := .ready guards[index], lastUse := c.tick + 1 } :: r
      tick := c.tick + 1 } := by
    have hposition' : ({ c with tick := c.tick + 1 } : Cache).position
        guards[index].regions.code = some l.length := hposition
    unfold Cache.putBack
    obtain ⟨ecode, lastUse, mapped, metadata, resident⟩ := e
    obtain rfl : resident = .checkedOut := hout
    simp only [hposition', hget]
    rw [hsplit, modify_split]
  rw [hrun]
  apply h.replace { e with resident := .ready guards[index], lastUse := c.tick + 1 } hsplit
  · rfl
  · rfl
  · rfl
  · rfl
  · exact ⟨hcode.symm, hqp ▸ hqcharge⟩
  · intro code charge hmark
    cases hmark
  · intro q hq
    rw [← hperm.mem_iff, List.mem_cons]
    constructor
    · exact .inr
    · intro hmem
      obtain rfl | hmem := hmem
      · exact absurd hcode.symm hq
      · exact hmem
  · intro q hq hqcode
    exact absurd hqcode (hrest q hq)

/-- An eviction takes away an entry that is not in flight, or nothing. -/
lemma evict_spec (h : Bounded limits c) (code : Nat) :
    ∃ d removed, c.evict code = .ok (d, removed) ∧
      ((removed = false ∧ d = c) ∨
        ∃ e, removed = true ∧ e.evictable = true ∧ e.code = code ∧ Removed e c d) := by
  unfold Cache.evict
  cases hposition : c.position code with
  | none => exact ⟨c, false, rfl, .inl ⟨rfl, rfl⟩⟩
  | some index =>
      obtain ⟨l, e, r, hsplit, rfl, hcode, hget⟩ := position_entry hposition
      simp only [hget]
      by_cases hfree : e.evictable = true
      · rw [if_pos hfree]
        obtain ⟨d, hremove, hremoved⟩ := remove_spec hsplit h.sums
        rw [hremove]
        exact ⟨d, true, rfl, .inr ⟨e, rfl, hfree, hcode, hremoved⟩⟩
      · rw [if_neg hfree]
        exact ⟨c, false, rfl, .inl ⟨rfl, rfl⟩⟩

/-! ## Runs of the thread -/

/-- The invariant of a thread between two events. -/
structure Resting (limits : Limits z) (t : Thread) : Prop where
  tended : Tended limits t.guards none t.cache
  distinct : (t.guards.map fun p => p.regions.code).Nodup

/-- The program an entry holds. -/
def Entry.program? (e : Entry) : Option Program :=
  match e.resident with
  | .ready program => some program
  | .building | .checkedOut | .empty _ => none

/-- The programs alive on a thread: those that rest in its cache, and those checked out. -/
def Thread.programs (t : Thread) : List Program :=
  t.cache.entries.filterMap Entry.program? ++ t.guards

/-- What the accounts of a thread say between two events. -/
structure Accurate (limits : Limits z) (t : Thread) : Prop where
  bounded : Bounded limits t.cache
  ready : ∀ e ∈ t.cache.entries, ∀ p, e.resident = .ready p →
    p.regions.code = e.code ∧ e.charge = p.charge z
  empty : ∀ e ∈ t.cache.entries, ∀ summary, e.resident = .empty summary → e.charge = 0
  checkedOut : ∀ e ∈ t.cache.entries, e.resident = .checkedOut →
    ∃ p ∈ t.guards, p.regions.code = e.code ∧ e.charge = p.charge z
  held : ∀ p ∈ t.guards, ∃ e ∈ t.cache.entries,
    e.code = p.regions.code ∧ e.resident = .checkedOut ∧ e.charge = p.charge z
  settled : ∀ e ∈ t.cache.entries, e.resident ≠ .building
  alive : (t.programs.map fun p => p.regions.code).Nodup

variable {t u : Thread} {event : Event} {output : Output}

/-- One event keeps the invariant and does not fault. -/
lemma Resting.next (h : Resting limits t)
    (hnext : (machine limits).next t event = some (u, output)) :
    Resting limits u ∧ ∀ fault, output ≠ .fault fault := by
  cases event with
  | checkout code w =>
      obtain ⟨d, answer, hrun, hsome, hnone⟩ := checkout_spec (w := w) code h.tended
      simp only [machine, hrun] at hnext
      cases answer with
      | none =>
          obtain ⟨rfl, rfl⟩ := Prod.mk.inj (Option.some.inj hnext)
          exact ⟨⟨(hnone rfl).1, h.distinct⟩, fun _ => Output.noConfusion⟩
      | some a =>
          have ha := hsome a rfl
          cases a with
          | interpret noRegions =>
              obtain ⟨rfl, rfl⟩ := Prod.mk.inj (Option.some.inj hnext)
              exact ⟨⟨ha, h.distinct⟩, fun _ => Output.noConfusion⟩
          | native p =>
              obtain ⟨rfl, rfl⟩ := Prod.mk.inj (Option.some.inj hnext)
              obtain ⟨hcode, hnew, hd⟩ := ha
              refine ⟨⟨hd, ?_⟩, fun _ => Output.noConfusion⟩
              show ((t.guards ++ [p]).map _).Nodup
              rw [List.map_append, List.nodup_append]
              refine ⟨h.distinct, List.nodup_singleton _, ?_⟩
              intro a ha b hb heq
              obtain ⟨q, hq, rfl⟩ := List.mem_map.1 ha
              obtain rfl := List.mem_singleton.1 hb
              exact hnew q hq (heq.trans hcode)
  | dropGuard index =>
      simp only [machine] at hnext
      cases hp : t.guards[index]? with
      | none =>
          rw [hp] at hnext
          cases hnext
      | some p =>
          rw [hp] at hnext
          obtain ⟨rfl, rfl⟩ := Prod.mk.inj (Option.some.inj hnext)
          refine ⟨⟨putBack_spec h.tended h.distinct hp, ?_⟩, fun _ => Output.noConfusion⟩
          exact h.distinct.sublist ((List.eraseIdx_sublist _ _).map _)
  | evict code =>
      obtain ⟨d, removed, hrun, hd⟩ := evict_spec h.tended.bounded code
      simp only [machine, hrun] at hnext
      obtain ⟨rfl, rfl⟩ := Prod.mk.inj (Option.some.inj hnext)
      refine ⟨⟨?_, h.distinct⟩, fun _ => Output.noConfusion⟩
      obtain ⟨-, rfl⟩ | ⟨e, -, hfree, -, hremoved⟩ := hd
      · exact h.tended
      · exact hremoved.tended hfree h.tended

/-- A thread starts with nothing. -/
lemma Resting.start (h : (machine limits).start t) : Resting limits t := by
  obtain rfl : t = ⟨⟨[], 0, 0, 0⟩, []⟩ := h
  constructor
  · constructor
    · constructor
      · exact List.nodup_nil
      · exact Nat.zero_le _
      · rfl
      · exact Nat.zero_le _
      · show 0 + threadReserveBytes z limits.cachedPrograms ≤ _
        rw [Nat.zero_add]
        exact limits.reserve_fits
    · intro e he
      cases he
    · intro p hp
      cases hp
    · intro code charge hmark
      cases hmark
  · exact List.nodup_nil

/-- The invariant holds in every state of a run, and no event of it faults. -/
lemma Resting.run {l : List (Event × Output)} (hs : Resting limits t)
    (hrun : (machine limits).Run t l u) :
    Resting limits u ∧ ∀ event fault, (event, Output.fault fault) ∉ l := by
  induction hrun with
  | nil s => exact ⟨hs, fun _ _ => List.not_mem_nil⟩
  | cons step _ ih =>
      obtain ⟨ht, hfault⟩ := hs.next step
      obtain ⟨hu, hrest⟩ := ih ht
      refine ⟨hu, ?_⟩
      intro event fault hmem
      obtain heq | hmem := List.mem_cons.1 hmem
      · exact hfault fault (Prod.mk.inj heq).2.symm
      · exact hrest event fault hmem

/-- The programs that rest in the cache have the codes of their entries. -/
lemma Resting.alive (h : Resting limits t) : (t.programs.map fun p => p.regions.code).Nodup := by
  have hcode : ∀ e ∈ t.cache.entries, ∀ p, e.program? = some p →
      p.regions.code = e.code ∧ e.resident = .ready p := by
    intro e he p hp
    have hkept := h.tended.kept e he
    unfold Kept at hkept
    unfold Entry.program? at hp
    cases hresident : e.resident with
    | ready program =>
        rw [hresident] at hp hkept
        obtain rfl := Option.some.inj hp
        exact ⟨hkept.1, rfl⟩
    | building | checkedOut | empty summary =>
        rw [hresident] at hp
        cases hp
  have hresting : ((t.cache.entries.filterMap Entry.program?).map fun p => p.regions.code).Sublist
      (t.cache.entries.map Entry.code) := by
    have hall := fun e he => hcode e he
    generalize t.cache.entries = entries at hall ⊢
    induction entries with
    | nil => exact List.Sublist.slnil
    | cons e entries ih =>
        have hrest := ih fun x hx => hall x (List.mem_cons_of_mem _ hx)
        cases hp : e.program? with
        | none =>
            rw [List.filterMap_cons_none hp, List.map_cons]
            exact hrest.cons e.code
        | some p =>
            rw [List.filterMap_cons_some hp, List.map_cons, List.map_cons,
              (hall e List.mem_cons_self p hp).1]
            exact hrest.cons_cons e.code
  unfold Thread.programs
  rw [List.map_append, List.nodup_append]
  refine ⟨h.tended.bounded.codes.sublist hresting, h.distinct, ?_⟩
  intro a ha b hb heq
  obtain ⟨p, hp, rfl⟩ := List.mem_map.1 ha
  obtain ⟨q, hq, rfl⟩ := List.mem_map.1 hb
  obtain ⟨e, he, hep⟩ := List.mem_filterMap.1 hp
  obtain ⟨hecode, hready⟩ := hcode e he p hep
  have hout := h.tended.guarded he hq (heq.symm.trans hecode)
  rw [hready] at hout
  cases hout

/-- What the invariant says of the accounts. -/
lemma Resting.accurate (h : Resting limits t) : Accurate limits t := by
  have hkept := h.tended.kept
  have hout : ∀ e ∈ t.cache.entries, e.resident = .checkedOut →
      ∃ p ∈ t.guards, p.regions.code = e.code ∧ e.charge = p.charge z := by
    intro e he hresident
    have := hkept e he
    rwa [Kept, hresident] at this
  constructor
  · exact h.tended.bounded
  · intro e he p hresident
    have := hkept e he
    rwa [Kept, hresident] at this
  · intro e he summary hresident
    have := hkept e he
    rwa [Kept, hresident] at this
  · exact hout
  · intro p hp
    obtain ⟨e, he, hcode, hresident⟩ := h.tended.out p hp
    obtain ⟨q, hq, hqcode, hqcharge⟩ := hout e he hresident
    have heq : q = p := List.inj_on_of_nodup_map h.distinct hq hp (hqcode.trans hcode)
    exact ⟨e, he, hcode, hresident, heq ▸ hqcharge⟩
  · intro e he hresident
    have := hkept e he
    rw [Kept, hresident] at this
    cases this
  · exact h.alive

/-- What a removal takes away is not in flight. -/
lemma evictLru_evictable {e : Entry} (keep : Nat) (h : c.evictLru keep = .ok (d, some e)) :
    e.evictable = true := by
  unfold Cache.evictLru at h
  split at h
  · cases h
  · rename_i index hleast
    obtain ⟨x, hx⟩ := leastUsed_mem hleast
    obtain ⟨hx, hfree⟩ := List.mem_filter.1 hx
    have hat : c.entries[index]? = some x := List.mem_zipIdx_iff_getElem?.1 (List.mem_filter.1 hx).1
    unfold Cache.remove at h
    rw [hat] at h
    unfold subtract at h
    simp only [bind, Except.bind] at h
    split_ifs at h
    obtain rfl := Option.some.inj (Prod.mk.inj (Except.ok.inj h)).2
    exact hfree

/-- Over every run of a thread its accounts are exact, and no subtraction underflows.  A build that
is entered from it ends, by returning or by unwinding, with its marker still there and charged, and
with every program that was out still out; one that unwinds then leaves nothing of its code. -/
theorem cache_accounting {l : List (Event × Output)} {s : Thread}
    (hs : (machine limits).start s) (hrun : (machine limits).Run s l t) :
    Accurate limits t ∧
      (∀ event fault, (event, Output.fault fault) ∉ l) ∧
      (∀ event u output, (machine limits).next t event = some (u, output) →
        ∀ p ∈ t.guards, p ∈ u.guards ∨ ∃ index, event = .dropGuard index ∧
          t.guards[index]? = some p) ∧
      (∀ code w c, t.cache.admitBuild limits w code = .ok (c, none) →
        ∃ charge, Tended limits t.guards (some (code, charge))
          (build limits w ⟨c, Build.new limits w code⟩).2.cache) ∧
      (∀ code w u, (machine limits).next t (.checkout code w) = some (u, .unwound) →
        u.guards = t.guards ∧ ∀ e ∈ u.cache.entries, e.code ≠ code) ∧
      ∀ (c d : Cache) keep e, c.evictLru keep = .ok (d, some e) → e.evictable = true := by
  obtain ⟨ht, hfault⟩ := (Resting.start hs).run hrun
  refine ⟨ht.accurate, hfault, ?_, ?_, ?_, fun c d keep e => evictLru_evictable keep⟩
  · intro event u output hnext p hp
    cases event with
    | checkout code w =>
        left
        simp only [machine] at hnext
        split at hnext
        · obtain ⟨rfl, -⟩ := Prod.mk.inj (Option.some.inj hnext)
          exact List.mem_append_left _ hp
        · obtain ⟨rfl, -⟩ := Prod.mk.inj (Option.some.inj hnext)
          exact hp
        · obtain ⟨rfl, -⟩ := Prod.mk.inj (Option.some.inj hnext)
          exact hp
        · obtain ⟨rfl, -⟩ := Prod.mk.inj (Option.some.inj hnext)
          exact hp
    | evict code =>
        left
        simp only [machine] at hnext
        split at hnext
        · obtain ⟨rfl, -⟩ := Prod.mk.inj (Option.some.inj hnext)
          exact hp
        · obtain ⟨rfl, -⟩ := Prod.mk.inj (Option.some.inj hnext)
          exact hp
    | dropGuard index =>
        simp only [machine] at hnext
        cases hq : t.guards[index]? with
        | none =>
            rw [hq] at hnext
            cases hnext
        | some q =>
            rw [hq] at hnext
            obtain ⟨rfl, -⟩ := Prod.mk.inj (Option.some.inj hnext)
            obtain ⟨hlt, rfl⟩ := List.getElem?_eq_some_iff.1 hq
            have hperm := List.getElem_cons_eraseIdx_perm hlt
            rw [← hperm.mem_iff, List.mem_cons] at hp
            obtain rfl | hp := hp
            · exact .inr ⟨index, rfl, hq⟩
            · exact .inl hp
  · intro code w c hadmits
    have hd : Tended limits t.guards (some (code, 0)) c := by
      cases hposition : t.cache.position code with
      | some index =>
          obtain ⟨d, answer, hknown, -⟩ := admitBuild_known (w := w) ht.tended hposition
          rw [hknown] at hadmits
          cases hadmits
      | none =>
          obtain ⟨d, answer, hunknown, ⟨rfl, hd⟩ | ⟨rfl, hd⟩⟩ :=
            admitBuild_unknown (w := w) ht.tended hposition
          · rw [hunknown] at hadmits
            obtain ⟨rfl, -⟩ := Prod.mk.inj (Except.ok.inj hadmits)
            exact hd
          · rw [hunknown] at hadmits
            cases hadmits
    have hbuild := build_spec (w := w) (Accounted.start (w := w) hd)
    unfold ErrState.wp at hbuild
    generalize build limits w ⟨c, Build.new limits w code⟩ = run at hbuild
    obtain ⟨result, v⟩ := run
    cases result with
    | ok x => exact ⟨_, hbuild.cache⟩
    | error fault => exact hbuild.2
  · intro code w u hnext
    obtain ⟨d, answer, hrun, -, hnone⟩ := checkout_spec (w := w) code ht.tended
    simp only [machine, hrun] at hnext
    cases answer with
    | none =>
        obtain ⟨rfl, -⟩ := Prod.mk.inj (Option.some.inj hnext)
        exact ⟨rfl, (hnone rfl).2⟩
    | some a =>
        cases a with
        | native p =>
            have := (Prod.mk.inj (Option.some.inj hnext)).2
            cases this
        | interpret noRegions =>
            have := (Prod.mk.inj (Option.some.inj hnext)).2
            cases this

/-- Sizes of the charged types. -/
def sampleSizes : Sizes := ⟨1, 16, 64, 32, 48, 128, 256, 40⟩

/-- The production limits, with room for one program. -/
def sampleLimits : Limits sampleSizes :=
  { production sampleSizes (by decide +kernel) with
    cachedPrograms := 1
    reserve_fits := by decide +kernel }

/-- A code of one function with one region, whose load panics where it is asked to. -/
def sampleWorld (unwinding : Bool) : World where
  enabled := .yes
  functions := 1
  function := fun _ => some ⟨12, 3, 1, false⟩
  scan := fun _ => .ok [4]
  recursion := fun _ => none
  methods := fun _ n => (none, ⟨n, le_refl n⟩)
  context := fun _ => .ok ()
  candidate := fun _ _ => .ok (.ok ⟨3, 1, 1, 0, none, false, none⟩)
  provenRange := fun _ _ => false
  vector := fun _ _ _ => .ok (.error .other)
  compile := fun _ => .done ⟨100, 0⟩
  process := fun _ => true
  load := fun _ => .done ()
  alloc := fun _ _ => true
  panics := fun site _ => unwinding && site == .afterProcess

/-- A program that is called again while it runs, a build that unwinds, and two evictions. -/
def sampleEvents : List Event :=
  [.checkout 7 (sampleWorld false), .checkout 7 (sampleWorld false), .evict 7, .dropGuard 0,
    .checkout 8 (sampleWorld true), .checkout 7 (sampleWorld false), .checkout 9 (sampleWorld false)]

theorem cache_accounting_sample :
    ∃ t, (machine sampleLimits).exec ⟨⟨[], 0, 0, 0⟩, []⟩ sampleEvents = some t ∧
      t.guards.map (fun p => p.regions.code) = [7] ∧ Accurate sampleLimits t := by
  have hrun : ((machine sampleLimits).exec ⟨⟨[], 0, 0, 0⟩, []⟩ sampleEvents).map
      (fun t => t.guards.map fun p => p.regions.code) = some [7] := by
    decide +kernel
  obtain ⟨t, ht, hguards⟩ := Option.map_eq_some_iff.1 hrun
  obtain ⟨l, hl⟩ := Machine.exec_run ht
  exact ⟨t, ht, hguards, (cache_accounting rfl hl).1⟩

end Native

end Rnx
