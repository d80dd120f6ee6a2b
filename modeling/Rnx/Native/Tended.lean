import Rnx.Native.Build

/-!
# The invariant of the cache

Codes are distinct, the totals are the sums over the entries and within the bounds of the thread,
and each entry is charged exactly what its program is.  While a build is under way its entry is
marked: it is charged what the build has been charged so far.

Evicting, reserving and unreserving are each given one lemma here; the build and the events of the
thread use no other facts about them.
-/

namespace Rnx

namespace Native

variable {z : Sizes} {limits : Limits z} {c d : Cache} {guards : List Program}

/-- What an entry is charged. -/
def Entry.charge (e : Entry) : Charge := ⟨e.mapped, e.metadata⟩

/-- What the thread is charged for its entries. -/
def Cache.charge (c : Cache) : Charge := ⟨c.mapped, c.metadata⟩

/-- The sum over some entries. -/
def total (entries : List Entry) : Charge := (entries.map Entry.charge).sum

/-- The accounts of a cache: distinct codes, totals that are sums, and the bounds of the thread. -/
structure Bounded (limits : Limits z) (c : Cache) : Prop where
  codes : (c.entries.map Entry.code).Nodup
  length : c.entries.length ≤ limits.cachedPrograms
  sums : c.charge = total c.entries
  mapped : c.mapped ≤ limits.threadMappedBytes
  metadata : c.metadata + threadReserveBytes z limits.cachedPrograms ≤ limits.threadMetadataBytes

/-- An entry is charged what its program is; the programs of entries that are checked out are among
the guards, and a build in progress is the marked one. -/
def Kept (z : Sizes) (guards : List Program) (mark : Option (Nat × Charge)) (e : Entry) : Prop :=
  match e.resident with
  | .ready program => program.regions.code = e.code ∧ e.charge = program.charge z
  | .empty _ => e.charge = 0
  | .checkedOut => ∃ p ∈ guards, p.regions.code = e.code ∧ e.charge = p.charge z
  | .building => mark = some (e.code, e.charge)

/-- The invariant of a cache whose guards are out, with the build that is under way. -/
structure Tended (limits : Limits z) (guards : List Program) (mark : Option (Nat × Charge))
    (c : Cache) : Prop where
  bounded : Bounded limits c
  kept : ∀ e ∈ c.entries, Kept z guards mark e
  out : ∀ p ∈ guards, ∃ e ∈ c.entries, e.code = p.regions.code ∧ e.resident = .checkedOut
  marked : ∀ code charge, mark = some (code, charge) →
    ∃ e ∈ c.entries, e.code = code ∧ e.resident = .building ∧ e.charge = charge

/-! ## Entries by position -/

lemma total_append (l r : List Entry) : total (l ++ r) = total l + total r := by
  unfold total
  rw [List.map_append, List.sum_append]

lemma total_cons (e : Entry) (l : List Entry) : total (e :: l) = e.charge + total l := by
  unfold total
  rw [List.map_cons, List.sum_cons]

lemma total_perm {l r : List Entry} (h : l.Perm r) : total l = total r := by
  unfold total
  exact (h.map Entry.charge).sum_eq

/-- A position splits the entries at the first of its code. -/
lemma position_split {code index : Nat} (h : c.position code = some index) :
    ∃ l e r, c.entries = l ++ e :: r ∧ l.length = index ∧ e.code = code := by
  obtain ⟨hlt, hcode, _⟩ := List.findIdx?_eq_some_iff_getElem.1 h
  refine ⟨c.entries.take index, c.entries[index], c.entries.drop (index + 1), ?_, ?_, ?_⟩
  · rw [List.cons_getElem_drop_succ, List.take_append_drop]
  · rw [List.length_take]
    omega
  · simpa using hcode

lemma position_none {code : Nat} (h : c.position code = none) : ∀ e ∈ c.entries, e.code ≠ code := by
  intro e he hcode
  have := List.findIdx?_eq_none_iff.1 h e he
  simp [hcode] at this

lemma position_mem {code : Nat} (h : ∃ e ∈ c.entries, e.code = code) :
    ∃ index, c.position code = some index := by
  cases hp : c.position code with
  | some index => exact ⟨index, rfl⟩
  | none =>
      obtain ⟨e, he, hcode⟩ := h
      exact absurd hcode (position_none hp e he)

@[simp] lemma getElem?_split (l r : List Entry) (e : Entry) : (l ++ e :: r)[l.length]? = some e := by
  simp

@[simp] lemma modify_split (l r : List Entry) (e : Entry) (f : Entry → Entry) :
    (l ++ e :: r).modify l.length f = l ++ f e :: r := by
  rw [List.modify_eq_set_getElem?]
  simp

@[simp] lemma set_split (l r : List Entry) (e e' : Entry) :
    (l ++ e :: r).set l.length e' = l ++ e' :: r := by
  simp

/-- Removing an entry by swapping leaves the others, in some order. -/
lemma swapRemove_perm (l r : List Entry) (e : Entry) :
    (swapRemove (l ++ e :: r) l.length).Perm (l ++ r) := by
  unfold swapRemove
  cases r using List.reverseRec with
  | nil => simp
  | append_singleton r last _ =>
      have hlast : (l ++ e :: (r ++ [last])).getLast? = some last := by
        rw [← List.cons_append, ← List.append_assoc, List.getLast?_concat]
      rw [hlast]
      simp only [set_split]
      rw [← List.cons_append, ← List.append_assoc, List.dropLast_concat]
      have : (last :: r).Perm (r ++ [last]) := (List.perm_append_singleton last r).symm
      exact this.append_left l

/-! ## Removing entries -/

/-- `d` is `c` without the entry. -/
structure Removed (e : Entry) (c d : Cache) : Prop where
  entries : c.entries.Perm (e :: d.entries)
  charge : c.charge = e.charge + d.charge

lemma subtract_add (a b : Nat) : subtract (a + b) a = .ok b := by
  unfold subtract
  rw [if_pos (Nat.le_add_right a b), Nat.add_sub_cancel_left]

/-- Removing an entry that is there never underflows. -/
lemma remove_spec {l r : List Entry} {e : Entry} (hsplit : c.entries = l ++ e :: r)
    (hsums : c.charge = total c.entries) :
    ∃ d, c.remove l.length = .ok (d, some e) ∧ Removed e c d := by
  have hperm : c.entries.Perm (e :: (l ++ r)) := by
    rw [hsplit]
    exact List.perm_middle
  have htotal : c.charge = e.charge + total (l ++ r) := by
    rw [hsums, total_perm hperm, total_cons]
  have hmapped : c.mapped = e.mapped + (total (l ++ r)).mapped := congrArg Charge.mapped htotal
  have hmetadata : c.metadata = e.metadata + (total (l ++ r)).metadata :=
    congrArg Charge.metadata htotal
  refine ⟨{ c with
    entries := swapRemove c.entries l.length, mapped := (total (l ++ r)).mapped
    metadata := (total (l ++ r)).metadata }, ?_, ?_, ?_⟩
  · have hget : c.entries[l.length]? = some e := by
      rw [hsplit, getElem?_split]
    unfold Cache.remove
    simp only [hget, hmapped, hmetadata, subtract_add]
    rfl
  · apply hperm.trans
    apply List.Perm.cons
    rw [hsplit]
    exact (swapRemove_perm l r e).symm
  · exact htotal

lemma Removed.mem {e x : Entry} (h : Removed e c d) : x ∈ c.entries ↔ x = e ∨ x ∈ d.entries := by
  rw [h.entries.mem_iff, List.mem_cons]

lemma Removed.bounded {e : Entry} (h : Removed e c d) (hc : Bounded limits c) :
    Bounded limits d := by
  have hcodes := hc.codes
  rw [(h.entries.map Entry.code).nodup_iff, List.map_cons, List.nodup_cons] at hcodes
  have hlength := hc.length
  rw [h.entries.length_eq, List.length_cons] at hlength
  have hsums := hc.sums
  rw [total_perm h.entries, total_cons, h.charge] at hsums
  have hmapped : c.mapped = e.mapped + d.mapped := congrArg Charge.mapped h.charge
  have hmetadata : c.metadata = e.metadata + d.metadata := congrArg Charge.metadata h.charge
  constructor
  · exact hcodes.2
  · omega
  · ext
    · simpa using congrArg Charge.mapped hsums
    · simpa using congrArg Charge.metadata hsums
  · exact le_trans (by omega) hc.mapped
  · exact le_trans (by omega) hc.metadata

variable {mark : Option (Nat × Charge)}

/-- An entry that is not in flight can go. -/
lemma Removed.tended {e : Entry} (h : Removed e c d) (hfree : e.evictable = true)
    (hc : Tended limits guards mark c) : Tended limits guards mark d := by
  have hstay : ∀ x ∈ c.entries, x.evictable = false → x ∈ d.entries := by
    intro x hx hflight
    obtain rfl | hx := h.mem.1 hx
    · rw [hfree] at hflight
      cases hflight
    · exact hx
  constructor
  · exact h.bounded hc.bounded
  · intro x hx
    exact hc.kept x (h.mem.2 (.inr hx))
  · intro p hp
    obtain ⟨x, hx, hcode, hout⟩ := hc.out p hp
    exact ⟨x, hstay x hx (by rw [Entry.evictable, hout]), hcode, hout⟩
  · intro code charge hmark
    obtain ⟨x, hx, hcode, hbuilding, hcharge⟩ := hc.marked code charge hmark
    exact ⟨x, hstay x hx (by rw [Entry.evictable, hbuilding]), hcode, hbuilding, hcharge⟩

lemma leastUsed_mem {l : List (Entry × Nat)} {index : Nat} (h : leastUsed l = some index) :
    ∃ e, (e, index) ∈ l := by
  cases l with
  | nil => cases h
  | cons first rest =>
      have hfold : ∀ (rest : List (Entry × Nat)) (best : Entry × Nat),
          rest.foldl (fun best e => if e.1.lastUse < best.1.lastUse then e else best) best ∈
            best :: rest := by
        intro rest
        induction rest with
        | nil => simp
        | cons e rest ih =>
            intro best
            rw [List.foldl_cons]
            have hmem := ih (if e.1.lastUse < best.1.lastUse then e else best)
            split_ifs at hmem ⊢
            · exact List.mem_cons_of_mem _ hmem
            · obtain hb | hr := List.mem_cons.1 hmem
              · rw [hb]
                exact List.mem_cons_self
              · exact List.mem_cons_of_mem _ (List.mem_cons_of_mem _ hr)
      have hmem := hfold rest first
      obtain rfl := Option.some.inj h
      exact ⟨_, hmem⟩

/-- Evicting takes away an entry that is not in flight and not the one to keep, or nothing. -/
lemma evictLru_spec (hc : Bounded limits c) (keep : Nat) :
    ∃ d evicted, c.evictLru keep = .ok (d, evicted) ∧
      ((evicted = none ∧ d = c) ∨
        ∃ e, evicted = some e ∧ e.evictable = true ∧ e.code ≠ keep ∧ Removed e c d) := by
  unfold Cache.evictLru
  split
  · exact ⟨c, none, rfl, .inl ⟨rfl, rfl⟩⟩
  · rename_i index hleast
    obtain ⟨e, he⟩ := leastUsed_mem hleast
    obtain ⟨he, hfree⟩ := List.mem_filter.1 he
    obtain ⟨he, hkeep⟩ := List.mem_filter.1 he
    have hat : c.entries[index]? = some e := List.mem_zipIdx_iff_getElem?.1 he
    obtain ⟨hlt, hget⟩ := List.getElem?_eq_some_iff.1 hat
    have hsplit : c.entries = c.entries.take index ++ e :: c.entries.drop (index + 1) := by
      rw [← hget, List.cons_getElem_drop_succ, List.take_append_drop]
    obtain ⟨d, hd, hremoved⟩ := remove_spec hsplit hc.sums
    have hlen : (c.entries.take index).length = index := by
      rw [List.length_take]
      omega
    rw [hlen] at hd
    exact ⟨d, some e, hd, .inr ⟨e, rfl, hfree, by simpa using hkeep, hremoved⟩⟩

/-! ## Reserving and unreserving -/

lemma threadReserve_pos (z : Sizes) (n : Nat) : 0 < threadReserveBytes z n := by
  unfold threadReserveBytes saturatingAdd isaReserveBytes usizeMax
  omega

/-- Making room evicts entries that are not in flight, and answers whether the bytes fit. -/
lemma makeRoom_spec {code : Nat} {charge : Charge} (mapped metadata : Nat) (rounds : Nat)
    (hc : Tended limits guards (some (code, charge)) c) :
    ∃ d, c.makeRoom limits code mapped metadata rounds =
        .ok (d, d.fits limits mapped metadata) ∧
      Tended limits guards (some (code, charge)) d := by
  induction rounds generalizing c with
  | zero => exact ⟨c, rfl, hc⟩
  | succ rounds ih =>
      unfold Cache.makeRoom
      cases hfits : c.fits limits mapped metadata with
      | true => exact ⟨c, by rw [hfits]; rfl, hc⟩
      | false =>
          obtain ⟨d, evicted, hevict, hd⟩ := evictLru_spec hc.bounded code
          rw [if_neg Bool.false_ne_true, hevict]
          obtain ⟨rfl, rfl⟩ | ⟨e, rfl, hfree, _, hremoved⟩ := hd
          · exact ⟨d, by rw [hfits]; rfl, hc⟩
          · exact ih (hremoved.tended hfree hc)

/-- The marked entry, by its position. -/
lemma Tended.marked_split {code : Nat} {charge : Charge}
    (hc : Tended limits guards (some (code, charge)) c) :
    ∃ l e r, c.position code = some l.length ∧ c.entries = l ++ e :: r ∧ e.code = code ∧
      e.resident = .building ∧ e.charge = charge := by
  obtain ⟨x, hx, hcode, hbuilding, hcharge⟩ := hc.marked code charge rfl
  obtain ⟨index, hindex⟩ := position_mem ⟨x, hx, hcode⟩
  obtain ⟨l, e, r, hsplit, hlen, he⟩ := position_split hindex
  have hmem : e ∈ c.entries := by
    rw [hsplit]
    simp
  have heq : e = x := List.inj_on_of_nodup_map hc.bounded.codes hmem hx (he.trans hcode.symm)
  exact ⟨l, e, r, hlen ▸ hindex, hsplit, he, heq ▸ hbuilding, heq ▸ hcharge⟩

/-- Replacing the marked entry by one of another charge. -/
lemma Tended.recharge {code : Nat} {charge charge' : Charge} {l r : List Entry} {e : Entry}
    (e' : Entry) (hc : Tended limits guards (some (code, charge)) c) (hsplit : c.entries = l ++ e :: r)
    (hcode : e.code = code) (hflight : e.resident = .building) (hcode' : e'.code = code)
    (hbuilding : e'.resident = .building)
    (hcharge' : e'.charge = charge') (hentries : d.entries = l ++ e' :: r)
    (hsums : d.charge = total d.entries) (hmapped : d.mapped ≤ limits.threadMappedBytes)
    (hmetadata : d.metadata + threadReserveBytes z limits.cachedPrograms ≤
      limits.threadMetadataBytes) : Tended limits guards (some (code, charge')) d := by
  have hcodes := hc.bounded.codes
  rw [hsplit] at hcodes
  have hother : ∀ x ∈ l ++ r, x.code ≠ code := by
    intro x hx hxcode
    have hperm : (l ++ e :: r).Perm (e :: (l ++ r)) := List.perm_middle
    rw [(hperm.map Entry.code).nodup_iff, List.map_cons, List.nodup_cons] at hcodes
    apply hcodes.1
    rw [hcode, ← hxcode]
    exact List.mem_map_of_mem hx
  have hmem : ∀ x, x ∈ d.entries ↔ x = e' ∨ x ∈ l ++ r := by
    intro x
    rw [hentries, List.perm_middle.mem_iff, List.mem_cons]
  have hold : ∀ x ∈ l ++ r, x ∈ c.entries := by
    intro x hx
    rw [hsplit, List.perm_middle.mem_iff]
    exact List.mem_cons_of_mem _ hx
  constructor
  · constructor
    · rw [hentries]
      simpa [hcode, hcode'] using hcodes
    · rw [hentries]
      simpa [hsplit] using hc.bounded.length
    · exact hsums
    · exact hmapped
    · exact hmetadata
  · intro x hx
    obtain rfl | hx := (hmem x).1 hx
    · rw [Kept, hbuilding]
      simp only [hcode', hcharge']
    · have hkept := hc.kept x (hold x hx)
      unfold Kept at hkept ⊢
      cases hres : x.resident with
      | building =>
          rw [hres] at hkept
          have := (Prod.mk.inj (Option.some.inj hkept)).1
          exact absurd this.symm (hother x hx)
      | checkedOut | ready program | empty summary =>
          rw [hres] at hkept
          exact hkept
  · intro p hp
    obtain ⟨x, hx, hxcode, hout⟩ := hc.out p hp
    rw [hsplit, List.perm_middle.mem_iff, List.mem_cons] at hx
    obtain rfl | hx := hx
    · rw [hflight] at hout
      cases hout
    · exact ⟨x, (hmem x).2 (.inr hx), hxcode, hout⟩
  · intro code'' charge'' hmark
    obtain ⟨rfl, rfl⟩ := Prod.mk.inj (Option.some.inj hmark)
    exact ⟨e', (hmem e').2 (.inl rfl), hcode', hbuilding, hcharge'⟩

/-- A reservation charges the marked entry, or changes no charge.  Bytes that fit are not
saturated. -/
lemma reserve_spec {code : Nat} {charge : Charge} (mapped metadata : Nat)
    (hc : Tended limits guards (some (code, charge)) c) :
    ∃ d reserved, c.reserve limits code mapped metadata = .ok (d, reserved) ∧
      (reserved = true → metadata < usizeMax ∧
        Tended limits guards (some (code, charge + ⟨mapped, metadata⟩)) d) ∧
      (reserved = false → Tended limits guards (some (code, charge)) d) := by
  obtain ⟨d, hroom, hd⟩ := makeRoom_spec mapped metadata c.entries.length hc
  unfold Cache.reserve
  rw [hroom]
  cases hfits : d.fits limits mapped metadata with
  | false => exact ⟨d, false, by simp [bind, Except.bind], by simp, fun _ => hd⟩
  | true =>
      obtain ⟨l, e, r, hposition, hsplit, hcode, hbuilding, hcharge⟩ := hd.marked_split
      unfold Cache.fits at hfits
      obtain ⟨-, hmapped, husize, hmetadata⟩ := of_decide_eq_true hfits
      have hpos := threadReserve_pos z limits.cachedPrograms
      refine ⟨{ d with
        entries := l ++ { e with mapped := e.mapped + mapped, metadata := e.metadata + metadata } :: r
        mapped := d.mapped + mapped, metadata := d.metadata + metadata }, true, ?_, ?_, ?_⟩
      · simp only [bind, Except.bind, if_pos, hposition]
        rw [hsplit, modify_split]
      · intro _
        constructor
        · omega
        · have hsums := hd.bounded.sums
          rw [hsplit, total_append, total_cons] at hsums
          apply Tended.recharge
            { e with mapped := e.mapped + mapped, metadata := e.metadata + metadata }
            hd hsplit hcode hbuilding hcode hbuilding ?_ rfl ?_ hmapped (by omega)
          · rw [← hcharge]
            rfl
          · show d.charge + ⟨mapped, metadata⟩ = total _
            rw [hsums, total_append, total_cons]
            ext
            · simp [Entry.charge]
              omega
            · simp [Entry.charge]
              omega
      · intro h
        cases h

/-- Giving back what the marked entry was charged never underflows. -/
lemma unreserve_spec {code mapped metadata : Nat} {charge : Charge}
    (hc : Tended limits guards (some (code, charge + ⟨mapped, metadata⟩)) c) :
    ∃ d, c.unreserve code mapped metadata = .ok d ∧
      Tended limits guards (some (code, charge)) d := by
  obtain ⟨l, e, r, hposition, hsplit, hcode, hbuilding, hcharge⟩ := hc.marked_split
  have hsums := hc.bounded.sums
  rw [hsplit, total_append, total_cons, hcharge] at hsums
  have hemapped : e.mapped = mapped + charge.mapped := by
    rw [Nat.add_comm]
    exact congrArg Charge.mapped hcharge
  have hemetadata : e.metadata = metadata + charge.metadata := by
    rw [Nat.add_comm]
    exact congrArg Charge.metadata hcharge
  have hcmapped : c.mapped = mapped + (total l + (charge + total r)).mapped := by
    have := congrArg Charge.mapped hsums
    simp [Cache.charge] at this ⊢
    omega
  have hcmetadata : c.metadata = metadata + (total l + (charge + total r)).metadata := by
    have := congrArg Charge.metadata hsums
    simp [Cache.charge] at this ⊢
    omega
  have hget : c.entries[l.length]? = some e := by
    rw [hsplit, getElem?_split]
  refine ⟨{ c with
    entries := l ++ { e with mapped := charge.mapped, metadata := charge.metadata } :: r
    mapped := (total l + (charge + total r)).mapped
    metadata := (total l + (charge + total r)).metadata }, ?_, ?_⟩
  · unfold Cache.unreserve
    simp only [hposition, hget, hemapped, hemetadata, hcmapped, hcmetadata, subtract_add, bind,
      Except.bind]
    rw [hsplit, set_split]
  · apply Tended.recharge { e with mapped := charge.mapped, metadata := charge.metadata }
      hc hsplit hcode hbuilding hcode hbuilding rfl rfl
    · show (total l + (charge + total r) : Charge) = total _
      rw [total_append, total_cons]
      rfl
    · have hle := hc.bounded.mapped
      show (total l + (charge + total r)).mapped ≤ _
      omega
    · have hle := hc.bounded.metadata
      show (total l + (charge + total r)).metadata + _ ≤ _
      omega

end Native

end Rnx
