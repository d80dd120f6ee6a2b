import Rnx.Region.Commit
import Rnx.Store.Admission

/-!
# A commit is safe against any runner

Whatever a runner returns, an entry refuses and leaves the window and the store alone, or commits
an exit of the static table.  Validation is a conjunction of independent checks, so the first half
reads one fact off each of them; the second half is one step of the write-back, what it preserves,
and the loop over the touched slots.
-/

namespace Rnx

open ErrState (run_bind run_get_bind run_update_bind)

namespace Region

variable {r : Region} {window w : List Value} {s t : Store} {entryFuel : U64}
  {iter : Option IterEntry} {buf : List I64} {exit : Exit} {record : ExitRecord} {returned : Nat}
  {plan : Plan} {l j : Nat} {a b : Mask}

/-! ## Masks -/

lemma Mask.of_diff (h : a &&& ~~~b = 0) (hl : l < 64) (ha : a.getLsbD l = true) :
    b.getLsbD l = true := by
  have hbit : (a &&& ~~~b).getLsbD l = false := by rw [h]; exact BitVec.getLsbD_zero
  rw [BitVec.getLsbD_and, BitVec.getLsbD_not, ha] at hbit
  simpa [hl] using hbit

lemma Mask.of_disjoint (h : a &&& b = 0) (ha : a.getLsbD l = true) : b.getLsbD l = false := by
  have hbit : (a &&& b).getLsbD l = false := by rw [h]; exact BitVec.getLsbD_zero
  rw [BitVec.getLsbD_and, ha] at hbit
  simpa using hbit

lemma Mask.lt_of_bit (ha : a.getLsbD l = true) : l < 64 := by
  by_contra hl
  rw [BitVec.getLsbD_of_ge a l (by omega)] at ha
  exact Bool.false_ne_true ha

lemma mem_bits : l ∈ bits a ↔ a.getLsbD l = true := by
  unfold bits
  rw [List.mem_filter, List.mem_range]
  exact ⟨And.right, fun h => ⟨Mask.lt_of_bit h, h⟩⟩

/-! ## What a commit is -/

/-- One advance of a range iterator that ends at `finish`. -/
def RangeStep (finish next new : I64) : Prop := next.val < finish.val ∧ new.val = next.val + 1

/-- The positions a range iterator can reach are those the check admits. -/
lemma rangeNextReachable_iff {next finish new : I64} :
    Store.rangeNextReachable next finish new = true ↔
      Relation.ReflTransGen (RangeStep finish) next new := by
  constructor
  · intro h
    unfold Store.rangeNextReachable at h
    split_ifs at h with hend
    · rw [of_decide_eq_true h]
    · obtain ⟨hle, hfin⟩ := of_decide_eq_true h
      obtain ⟨k, hk⟩ : ∃ k : Nat, new.val = next.val + k := ⟨(new.val - next.val).toNat, by omega⟩
      clear h hle hend
      -- the position moves by one, `k` times
      induction k generalizing new with
      | zero => rw [show new = next from I64.ext (by omega)]
      | succ k ih =>
          have hlo := next.lower
          have hhi := new.upper
          let mid : I64 := ⟨next.val + k, by omega, by omega⟩
          have hmid : mid.val = next.val + k := rfl
          have hreach : Relation.ReflTransGen (RangeStep finish) next mid := ih (by omega) hmid
          exact .tail hreach ⟨by omega, by omega⟩
  · intro h
    have hle : next.val ≤ new.val ∧ (new = next ∨ new.val ≤ finish.val) := by
      induction h with
      | refl => exact ⟨le_refl _, .inl rfl⟩
      | tail _ hs ih =>
          have hlt := hs.1
          have hval := hs.2
          exact ⟨by omega, .inr (by omega)⟩
    unfold Store.rangeNextReachable
    split_ifs with hend
    · obtain hnew | hfin := hle.2
      · exact decide_eq_true hnew
      · have hval : new.val = next.val := by have := hle.1; omega
        exact decide_eq_true (I64.ext hval)
    · apply decide_eq_true
      obtain hnew | hfin := hle.2
      · rw [hnew]
        omega
      · exact ⟨hle.1, hfin⟩

/-- The tag of a written local: the static one, or the reported one where it depends on the path. -/
def Exit.tagAt (exit : Exit) (record : ExitRecord) (l : Nat) : Scalar :=
  if exit.dynamic.getLsbD l then
    if record.units.getLsbD l then .unit else if record.bools.getLsbD l then .bool else .i64
  else if exit.units.getLsbD l then .unit
  else if exit.bools.getLsbD l then .bool
  else .i64

/-- The value of a cell, if its payload is canonical for its tag. -/
def box : Scalar → I64 → Option Value
  | .i64, n => some (.i64 n)
  | .bool, n => if n.val = 0 then some (.bool false) else if n.val = 1 then some (.bool true) else none
  | .unit, n => if n.val = 0 then some .unit else none

/-- Only the position of the range iterator in the region's iterator slot moves, to one it can
reach, by no more than the fuel that was consumed. -/
def Advanced (r : Region) (window : List Value) (consumed : Nat) (s t : Store) : Prop :=
  match r.iter with
  | none => t = s
  | some spec => ∃ h e next finish new, window[spec.slot]? = some (.heap h) ∧ s.at? h = some e ∧
      e.payload = .rangeIterator next finish ∧
      t = s.modify h.slot (fun e => { e with payload := .rangeIterator new finish }) ∧
      Relation.ReflTransGen (RangeStep finish) next new ∧ new.val ≤ next.val + consumed

/-- The written locals and nothing else are written back, each with its tag and a canonical
payload. -/
structure WrittenBack (r : Region) (exit : Exit) (buf : List I64) (record : ExitRecord)
    (window w : List Value) : Prop where
  definite : ∀ l, exit.definite.getLsbD l = true → record.written.getLsbD l = true
  maybe : ∀ l, record.written.getLsbD l = true →
    exit.definite.getLsbD l = true ∨ exit.maybe.getLsbD l = true
  length : w.length = window.length
  kept : ∀ j, (∀ l, record.written.getLsbD l = true → r.slots[l]? ≠ some j) → w[j]? = window[j]?
  /-- Of two locals of one slot the later is written last. -/
  stored : ∀ l j, record.written.getLsbD l = true → r.slots[l]? = some j →
    (∀ m, l < m → record.written.getLsbD m = true → r.slots[m]? ≠ some j) →
    ∃ cell v, buf[l]? = some cell ∧ box (exit.tagAt record l) cell = some v ∧ w[j]? = some v

/-- A committed run: the exit its record names, and what became of the window and the store. -/
structure Committed (r : Region) (window : List Value) (s : Store) (fuel : Nat) (buf : List I64)
    (record : ExitRecord) (exited : Exited) (sc : Scene) : Prop where
  fuel_le : exited.fuel ≤ fuel
  site : ∃ exit, r.exits[record.exit]? = some exit ∧
    exited = ⟨exit.status, exit.pc, record.fuel.val⟩ ∧
    WrittenBack r exit buf record window sc.window
  store : Advanced r window (fuel - exited.fuel) s sc.store

/-! ## What validation establishes -/

/-- The facts of a successful validation. -/
structure Validated (vector : Bool) (r : Region) (window : List Value) (s : Store)
    (entryFuel : U64) (iter : Option IterEntry) (buf : List I64) (record : ExitRecord)
    (returned : Nat) (exit : Exit) (commit : Option IterCommit) : Prop where
  site : r.exits[record.exit]? = some exit
  length : buf.length = r.cells
  slots : r.slots.length ≤ 64
  record_ok : recordOk r entryFuel iter buf exit record returned = true
  noop : s.scalarReleaseIsNoop = true
  old : oldScalars window record.written r.slots 0 = true
  iterator : validateIter vector r window s entryFuel iter buf exit record = .ok commit

lemma validateMode_ok {vector : Bool}
    (h : validateMode vector r window s entryFuel iter buf record returned = .ok plan) :
    ∃ exit commit,
      Validated vector r window s entryFuel iter buf record returned exit commit ∧
      plan = planOf r buf record exit commit := by
  unfold validateMode at h
  simp only [Except.bind_eq_ok, okOr_eq_ok, ensure_eq_ok] at h
  obtain ⟨exit, hexit, -, ⟨hlen, hslots, -⟩, -, -, -, hrec, -, hnoop, -, hold, commit, hiter, hplan⟩
    := h
  exact ⟨exit, commit, ⟨hexit, hlen, hslots, hrec, hnoop, hold, hiter⟩, (Except.ok.inj hplan).symm⟩

/-- The parts of the record check that the commit rests on. -/
structure RecordFacts (entryFuel : U64) (buf : List I64) (exit : Exit) (record : ExitRecord)
    (all : Mask) : Prop where
  written : writtenOk exit record = true
  statics : staticsOk exit all = true
  disjoint : record.bools &&& record.units = 0
  payloads : canonicalPayloads buf (boolsOf exit record) (unitsOf exit record) all = true
  fuel : record.fuel.val ≤ entryFuel.val

lemma recordOk_facts (h : recordOk r entryFuel iter buf exit record returned = true) :
    RecordFacts entryFuel buf exit record (allMask r.slots.length) := by
  unfold recordOk at h
  simp only [Bool.and_eq_true] at h
  obtain ⟨⟨⟨⟨⟨⟨⟨⟨-, hw⟩, hs⟩, hm⟩, -⟩, hp⟩, hf⟩, -⟩, -⟩ := h
  unfold masksOk at hm
  unfold fuelOk at hf
  simp only [Bool.and_eq_true, beq_iff_eq, decide_eq_true_eq] at hm hf
  exact ⟨hw, hs, hm.1.1, hp, hf.1⟩

lemma writtenOk_maybe (h : writtenOk exit record = true) (hl : record.written.getLsbD l = true) :
    exit.definite.getLsbD l = true ∨ exit.maybe.getLsbD l = true := by
  unfold writtenOk at h
  simp only [Bool.and_eq_true, beq_iff_eq] at h
  have hbit := Mask.of_diff h.1 (Mask.lt_of_bit hl) hl
  rwa [BitVec.getLsbD_or, Bool.or_eq_true] at hbit

lemma writtenOk_definite (h : writtenOk exit record = true) (hl : exit.definite.getLsbD l = true) :
    record.written.getLsbD l = true := by
  unfold writtenOk at h
  simp only [Bool.and_eq_true, beq_iff_eq] at h
  exact Mask.of_diff h.2 (Mask.lt_of_bit hl) hl

/-- The effective masks of a written local. -/
lemma boolsOf_bit (hl : record.written.getLsbD l = true) :
    (boolsOf exit record).getLsbD l =
      if exit.dynamic.getLsbD l then record.bools.getLsbD l else exit.bools.getLsbD l := by
  have hlt := Mask.lt_of_bit hl
  unfold boolsOf dynamicOf
  simp only [BitVec.getLsbD_or, BitVec.getLsbD_and, BitVec.getLsbD_not, hl, hlt]
  cases exit.dynamic.getLsbD l <;> simp

lemma unitsOf_bit (hl : record.written.getLsbD l = true) :
    (unitsOf exit record).getLsbD l =
      if exit.dynamic.getLsbD l then record.units.getLsbD l else exit.units.getLsbD l := by
  have hlt := Mask.lt_of_bit hl
  unfold unitsOf dynamicOf
  simp only [BitVec.getLsbD_or, BitVec.getLsbD_and, BitVec.getLsbD_not, hl, hlt]
  cases exit.dynamic.getLsbD l <;> simp

/-- The cell of a checked local. -/
lemma canonicalPayloads_cell {bools units all : Mask} (h : canonicalPayloads buf bools units all = true)
    (hl : bools.getLsbD l = true ∨ units.getLsbD l = true) (hall : all.getLsbD l = true) :
    ∃ cell, buf[l]? = some cell ∧
      (cell.val = 0 ∨ (cell.val = 1 ∧ bools.getLsbD l = true)) := by
  unfold canonicalPayloads at h
  rw [List.all_eq_true] at h
  have hmem : l ∈ bits ((bools ||| units) &&& all) := by
    rw [mem_bits, BitVec.getLsbD_and, BitVec.getLsbD_or, hall]
    simpa using hl
  have hcell := h l hmem
  cases hbuf : buf[l]? with
  | none => rw [hbuf] at hcell; exact absurd hcell Bool.false_ne_true
  | some cell =>
      rw [hbuf] at hcell
      exact ⟨cell, rfl, by simpa using hcell⟩

/-- A tagged local is one of the touched slots. -/
lemma staticsOk_all {all : Mask} (h : staticsOk exit all = true)
    (hl : exit.units.getLsbD l = true ∨ exit.bools.getLsbD l = true ∨
      exit.dynamic.getLsbD l = true) : all.getLsbD l = true := by
  unfold staticsOk at h
  simp only [Bool.and_eq_true, beq_iff_eq] at h
  have hbit : (exit.units ||| exit.bools ||| exit.dynamic).getLsbD l = true := by
    rw [BitVec.getLsbD_or, BitVec.getLsbD_or]
    simpa [or_assoc] using hl
  exact Mask.of_diff h.2 (Mask.lt_of_bit hbit) hbit

/-- The value a validated plan writes to a local is its cell, boxed under the local's tag. -/
lemma value_box {all : Mask} {commit : Option IterCommit}
    (h : RecordFacts entryFuel buf exit record all) (hl : record.written.getLsbD l = true)
    (hbuf : (buf[l]?).isSome = true) :
    ∃ cell, buf[l]? = some cell ∧
      box (exit.tagAt record l) cell = some ((planOf r buf record exit commit).value l) := by
  obtain ⟨cell, hcell⟩ := Option.isSome_iff_exists.1 hbuf
  refine ⟨cell, hcell, ?_⟩
  -- a tagged bit is within the touched slots, so its payload was scanned
  have hall : exit.units.getLsbD l = true ∨ exit.bools.getLsbD l = true ∨
      exit.dynamic.getLsbD l = true → all.getLsbD l = true := staticsOk_all h.statics
  have hscan : ((boolsOf exit record).getLsbD l = true ∨ (unitsOf exit record).getLsbD l = true) →
      all.getLsbD l = true →
      cell.val = 0 ∨ (cell.val = 1 ∧ (boolsOf exit record).getLsbD l = true) := by
    intro ht ha
    obtain ⟨c, hc, hv⟩ := canonicalPayloads_cell h.payloads ht ha
    rw [hcell, Option.some.injEq] at hc
    rwa [hc]
  have hst : exit.units &&& exit.bools = 0 := by
    have := h.statics
    unfold staticsOk at this
    simp only [Bool.and_eq_true, beq_iff_eq] at this
    exact this.1.1
  unfold Plan.value planOf
  simp only [hcell, Option.getD_some]
  rw [boolsOf_bit hl, unitsOf_bit hl] at *
  unfold Exit.tagAt
  cases hd : exit.dynamic.getLsbD l with
  | true =>
      simp only [hd, if_true] at hscan ⊢
      cases hu : record.units.getLsbD l with
      | true =>
          have hb : record.bools.getLsbD l = false := by
            by_contra hb
            have := Mask.of_disjoint h.disjoint (Bool.eq_true_of_not_eq_false hb)
            rw [hu] at this
            exact Bool.false_ne_true this.symm
          have hv := hscan (.inr hu) (hall (.inr (.inr hd)))
          simp only [hb, Bool.false_eq_true, and_false, or_false] at hv
          simp [box, hv]
      | false =>
          cases hb : record.bools.getLsbD l with
          | true =>
              have hv := hscan (.inl hb) (hall (.inr (.inr hd)))
              obtain hv | ⟨hv, -⟩ := hv <;> simp [box, hv]
          | false => simp [box]
  | false =>
      simp only [hd, Bool.false_eq_true, if_false] at hscan ⊢
      cases hu : exit.units.getLsbD l with
      | true =>
          have hb := Mask.of_disjoint hst hu
          have hv := hscan (.inr hu) (hall (.inl hu))
          simp only [hb, Bool.false_eq_true, and_false, or_false] at hv
          simp [box, hv]
      | false =>
          cases hb : exit.bools.getLsbD l with
          | true =>
              have hv := hscan (.inl hb) (hall (.inr (.inl hb)))
              obtain hv | ⟨hv, -⟩ := hv <;> simp [box, hv]
          | false => simp [box]

lemma value_scalar : Store.isSlotScalar (plan.value l) = true := by
  unfold Plan.value
  split_ifs <;> rfl

/-! ## The write-back -/

/-- One write over a scalar in an idle store succeeds and touches that slot only. -/
lemma writeSlot_eq {old v : Value} (hold : w[j]? = some old)
    (hscalar : Store.isSlotScalar old = true) (hs : s.scalarReleaseIsNoop = true) :
    writeSlot j v ⟨w, s⟩ = (.ok (), ⟨w.set j v, s⟩) := by
  have hread : (ErrState.read fun sc : Scene => okOr sc.window[j]? writeBackInvariant) ⟨w, s⟩ =
      (.ok old, ⟨w, s⟩) := by
    change (okOr w[j]? writeBackInvariant, (⟨w, s⟩ : Scene)) = _
    rw [hold]
    rfl
  have hfree : ErrState.attempt (onStore (Store.releaseSlot old)) ⟨w.set j v, s⟩ =
      (.ok (.ok ()), ⟨w.set j v, s⟩) := by
    simp [ErrState.attempt, onStore, Store.releaseSlot_scalar hscalar hs]
  unfold writeSlot
  rw [run_bind hread, run_update_bind, run_bind hfree]
  rfl

lemma oldScalars_slot {slots : List Nat} {k i : Nat} (h : oldScalars window a slots k = true)
    (hi : slots[i]? = some j) (ha : a.getLsbD (k + i) = true) :
    ∃ v, window[j]? = some v ∧ Store.isSlotScalar v = true := by
  induction slots generalizing k i with
  | nil => simp at hi
  | cons slot rest ih =>
      unfold oldScalars at h
      rw [Bool.and_eq_true] at h
      cases i with
      | zero =>
          simp only [List.getElem?_cons_zero, Option.some.injEq] at hi
          subst hi
          have h1 := h.1
          rw [Nat.add_zero] at ha
          rw [ha] at h1
          cases hw : window[slot]? with
          | none => rw [hw] at h1; exact absurd h1 Bool.false_ne_true
          | some v => rw [hw] at h1; exact ⟨v, rfl, by simpa using h1⟩
      | succ i =>
          rw [List.getElem?_cons_succ] at hi
          exact ih h.2 hi (by rwa [show k + 1 + i = k + (i + 1) by omega])

/-- What the write-back of the locals from `k` on does to the window. -/
structure Writes (p : Plan) (slots : List Nat) (k : Nat) (window w : List Value) : Prop where
  length : w.length = window.length
  kept : ∀ j, (∀ i, p.written.getLsbD (k + i) = true → slots[i]? ≠ some j) → w[j]? = window[j]?
  stored : ∀ i j, p.written.getLsbD (k + i) = true → slots[i]? = some j →
    (∀ m, i < m → p.written.getLsbD (k + m) = true → slots[m]? ≠ some j) →
    w[j]? = some (p.value (k + i))

/-- The loop over the touched slots: every slot still to be written holds a scalar, which a write
keeps, so no release can fail. -/
lemma writeBack_eq {slots : List Nat} {k : Nat} (hs : s.scalarReleaseIsNoop = true)
    (hold : ∀ i j, slots[i]? = some j → plan.written.getLsbD (k + i) = true →
      ∃ v, window[j]? = some v ∧ Store.isSlotScalar v = true) :
    ∃ w, writeBack plan slots k ⟨window, s⟩ = (.ok (), ⟨w, s⟩) ∧ Writes plan slots k window w := by
  induction slots generalizing k window with
  | nil =>
      refine ⟨window, rfl, rfl, fun _ _ => rfl, ?_⟩
      intro i j _ hj
      simp at hj
  | cons slot rest ih =>
      unfold writeBack
      cases hk : plan.written.getLsbD k with
      | false =>
          have hrest : ∀ i j, rest[i]? = some j → plan.written.getLsbD (k + 1 + i) = true →
              ∃ v, window[j]? = some v ∧ Store.isSlotScalar v = true := by
            intro i j hi hw
            exact hold (i + 1) j (by simpa using hi) (by rwa [show k + (i + 1) = k + 1 + i by omega])
          obtain ⟨w, hrun, hw⟩ := ih hrest
          refine ⟨w, ?_, hw.length, ?_, ?_⟩
          · simp only [Bool.false_eq_true, if_false]
            exact hrun
          · intro j hj
            apply hw.kept j
            intro i hi
            have := hj (i + 1) (by rwa [show k + (i + 1) = k + 1 + i by omega])
            rwa [List.getElem?_cons_succ] at this
          · intro i j hi hj hlast
            cases i with
            | zero => rw [Nat.add_zero, hk] at hi; exact absurd hi Bool.false_ne_true
            | succ i =>
                rw [show k + (i + 1) = k + 1 + i by omega] at hi ⊢
                apply hw.stored i j hi (by simpa using hj)
                intro m hm hwm
                have := hlast (m + 1) (by omega) (by rwa [show k + (m + 1) = k + 1 + m by omega])
                rwa [List.getElem?_cons_succ] at this
      | true =>
          obtain ⟨old, hget, hscalar⟩ := hold 0 slot rfl (by rwa [Nat.add_zero])
          have hlt : slot < window.length := (List.getElem?_eq_some_iff.1 hget).1
          have hrest : ∀ i j, rest[i]? = some j → plan.written.getLsbD (k + 1 + i) = true →
              ∃ v, (window.set slot (plan.value k))[j]? = some v ∧
                Store.isSlotScalar v = true := by
            intro i j hi hw
            obtain rfl | hne := eq_or_ne j slot
            · exact ⟨_, List.getElem?_set_self hlt, value_scalar⟩
            · rw [List.getElem?_set_ne (Ne.symm hne)]
              exact hold (i + 1) j (by simpa using hi)
                (by rwa [show k + (i + 1) = k + 1 + i by omega])
          obtain ⟨w, hrun, hw⟩ := ih hrest
          refine ⟨w, ?_, ?_, ?_, ?_⟩
          · have hwrite := writeSlot_eq (v := plan.value k) hget hscalar hs
            simp only [if_true]
            rw [run_bind hwrite]
            exact hrun
          · rw [hw.length, List.length_set]
          · intro j hj
            have hne : slot ≠ j := by
              intro heq
              exact hj 0 (by rwa [Nat.add_zero]) (by rw [heq]; rfl)
            rw [hw.kept j, List.getElem?_set_ne hne]
            intro i hi
            have := hj (i + 1) (by rwa [show k + (i + 1) = k + 1 + i by omega])
            rwa [List.getElem?_cons_succ] at this
          · intro i j hi hj hlast
            cases i with
            | zero =>
                have hslot : slot = j := by simpa using hj
                subst hslot
                rw [hw.kept slot, List.getElem?_set_self hlt]
                · rfl
                · intro m hm
                  have := hlast (m + 1) (by omega)
                    (by rwa [show k + (m + 1) = k + 1 + m by omega])
                  rwa [List.getElem?_cons_succ] at this
            | succ i =>
                rw [show k + (i + 1) = k + 1 + i by omega] at hi ⊢
                apply hw.stored i j hi (by simpa using hj)
                intro m hm hwm
                have := hlast (m + 1) (by omega) (by rwa [show k + (m + 1) = k + 1 + m by omega])
                rwa [List.getElem?_cons_succ] at this

/-! ## The iterator -/

lemma rangeIteratorForNative_some {v : Value} {next finish : I64}
    (h : s.rangeIteratorForNative v = some (next, finish)) :
    ∃ k e, v = .heap k ∧ s.entry k = .ok e ∧ e.readers = 0 ∧ e.payload = .rangeIterator next finish := by
  unfold Store.rangeIteratorForNative at h
  cases v with
  | heap k =>
      cases he : s.entry k with
      | error _ => simp [he, Except.toOption] at h
      | ok e =>
          simp only [he, Except.toOption, bind, Option.bind] at h
          split_ifs at h with hr
          split at h
          next a b hp =>
            obtain ⟨rfl, rfl⟩ := Prod.mk.inj (Option.some.inj h)
            exact ⟨k, e, rfl, he, by simpa using hr, hp⟩
          next => simp at h
  | _ => simp at h

/-- The setter cannot refuse what the validation just read. -/
lemma commitRangeNext_eq {v : Value} {next finish new : I64} {k : Handle} {e : Entry}
    (hread : s.rangeIteratorForNative v = some (next, finish)) (hv : v = .heap k)
    (he : s.entry k = .ok e) (hr : e.readers = 0) (hp : e.payload = .rangeIterator next finish)
    (hreach : Store.rangeNextReachable next finish new = true) :
    Store.commitRangeNextForNative v (next, finish) new s = (.ok true,
      s.modify k.slot (fun e => { e with payload := .rangeIterator new finish })) := by
  have hmut : s.mutable k = .ok (.rangeIterator next finish) := by
    unfold Store.mutable
    rw [he]
    simp [bind, Except.bind, hr, hp, Payload.isMoved]
  unfold Store.commitRangeNextForNative
  rw [run_get_bind, if_neg (by rw [hread]; simp), hreach]
  subst hv
  simp only [Bool.not_true, Bool.false_eq_true, if_false, hmut]
  rfl

lemma modify_noop (f : Entry → Entry) (i : Nat) :
    (s.modify i f).scalarReleaseIsNoop = s.scalarReleaseIsNoop := rfl

lemma iterProgressOk_le {next new : I64} {f g : U64} (h : iterProgressOk next new f g = true) :
    new.val ≤ next.val + ((f.val - g.val : Nat) : Int) := by
  unfold iterProgressOk at h
  simp only [Bool.and_eq_true, decide_eq_true_eq] at h
  omega

/-- The position is stored, or there is none. -/
lemma commitNext_eq {exit : Exit} {commit : Option IterCommit}
    (hv : Validated false r window s entryFuel iter buf record returned exit commit) :
    ∃ t, commitNext commit ⟨window, s⟩ = (.ok true, ⟨window, t⟩) ∧
      t.scalarReleaseIsNoop = true ∧
      Advanced r window (entryFuel.val - record.fuel.val) s t := by
  have hiter := hv.iterator
  unfold validateIter at hiter
  unfold Advanced
  cases hspec : r.iter with
  | none =>
      cases iter with
      | some entry => rw [hspec] at hiter; exact absurd hiter nofun
      | none =>
          rw [hspec] at hiter
          obtain rfl := Except.ok.inj hiter
          exact ⟨s, rfl, hv.noop, rfl⟩
  | some spec =>
      cases iter with
      | none => rw [hspec] at hiter; exact absurd hiter nofun
      | some entry =>
          rw [hspec] at hiter
          simp only [Except.bind_eq_ok, okOr_eq_ok, ensure_eq_ok] at hiter
          obtain ⟨next, -, finish, -, -, hok, hcommit⟩ := hiter
          obtain rfl := Except.ok.inj hcommit
          unfold iterOk iterState at hok
          simp only [Bool.and_eq_true, beq_iff_eq, Bool.false_eq_true, if_false] at hok
          obtain ⟨⟨⟨⟨⟨hwin, hread⟩, -⟩, hreach⟩, -⟩, hprog⟩ := hok
          obtain ⟨k, e, hk, he, hr, hp⟩ := rangeIteratorForNative_some hread
          refine ⟨s.modify k.slot (fun e => { e with payload := .rangeIterator next entry.finish }),
            ?_, ?_, k, e, entry.next, entry.finish, next, ?_, ?_, hp, rfl, ?_, ?_⟩
          · unfold commitNext onStore
            simp only [commitRangeNext_eq hread hk he hr hp hreach]
          · rw [modify_noop]
            exact hv.noop
          · rw [hwin, hk]
          · exact (Store.entry_eq_ok.1 he).2
          · exact rangeNextReachable_iff.1 hreach
          · exact iterProgressOk_le hprog

/-! ## The commit -/

lemma cells_get (hlen : buf.length = r.cells) (hl : r.slots[l]? = some j) :
    (buf[l]?).isSome = true := by
  have hlt := (List.getElem?_eq_some_iff.1 hl).1
  have hb : l < buf.length := by
    rw [hlen, cells]
    omega
  rw [List.getElem?_eq_getElem hb]
  rfl

/-- A validated plan is applied without a failure. -/
lemma apply_eq {exit : Exit} {commit : Option IterCommit}
    (hv : Validated false r window s entryFuel iter buf record returned exit commit) :
    ∃ w t, apply (planOf r buf record exit commit) ⟨window, s⟩ =
        (.ok (.ok ⟨exit.status, exit.pc, record.fuel.val⟩), ⟨w, t⟩) ∧
      WrittenBack r exit buf record window w ∧
      Advanced r window (entryFuel.val - record.fuel.val) s t := by
  have hfacts := recordOk_facts hv.record_ok
  obtain ⟨t, hcommit, hnoop, hadv⟩ := commitNext_eq hv
  have hscalar : ∀ i j, r.slots[i]? = some j →
      (planOf r buf record exit commit).written.getLsbD (0 + i) = true →
      ∃ v, window[j]? = some v ∧ Store.isSlotScalar v = true :=
    fun i j hi hwi => oldScalars_slot hv.old hi hwi
  obtain ⟨w, hrun, hw⟩ := writeBack_eq hnoop hscalar
  refine ⟨w, t, ?_, ?_, hadv⟩
  · change (commitNext commit >>= _) _ = _
    rw [run_bind hcommit]
    change (writeBack _ r.slots 0 >>= _) _ = _
    rw [run_bind hrun]
    rfl
  · constructor
    · exact fun l => writtenOk_definite hfacts.written
    · exact fun l => writtenOk_maybe hfacts.written
    · exact hw.length
    · intro j hj
      apply hw.kept j
      intro i hi
      rw [Nat.zero_add] at hi
      exact hj i hi
    · intro l j hl hj hlast
      obtain ⟨cell, hcell, hbox⟩ := value_box hfacts hl (cells_get hv.length hj)
      refine ⟨cell, _, hcell, hbox, ?_⟩
      have hstored := hw.stored l j
      rw [Nat.zero_add] at hstored
      apply hstored hl hj
      intro m hm hwm
      rw [Nat.zero_add] at hwm
      exact hlast m hm hwm

lemma unboxMode_fuel {vector cancelPending : Bool} {fuel : Nat} {room : Room} {entered : Entered}
    (h : unboxMode vector r window s cancelPending fuel room = .ok entered) :
    entered.fuel.val = fuel := by
  unfold unboxMode at h
  simp only [Except.bind_eq_ok, okOr_eq_ok, ensure_eq_ok] at h
  obtain ⟨-, -, -, -, -, -, -, -, f, hf, cells, -, it, -, hent⟩ := h
  rw [← Except.ok.inj hent]
  unfold U64.ofNat? at hf
  split_ifs at hf
  rw [← Option.some.inj hf]

/-- Settling a run: validation refuses it, or the commit goes through. -/
lemma settle_safe {entered : Entered} {ran : List I64 × ExitRecord × Nat} {fuel : Nat}
    (hfuel : entered.fuel.val = fuel) :
    ∃ outcome sc, settle r entered ran ⟨window, s⟩ = (.ok outcome, sc) ∧
      ((∃ refused, outcome = .error refused ∧ sc = ⟨window, s⟩) ∨
        ∃ exited, outcome = .ok exited ∧ Committed r window s fuel ran.1 ran.2.1 exited sc) := by
  unfold settle
  rw [run_get_bind]
  cases hval : validateMode false r window s entered.fuel entered.iter ran.1 ran.2.1 ran.2.2 with
  | error refused =>
      simp only
      exact ⟨.error refused, ⟨window, s⟩, rfl, .inl ⟨refused, rfl, rfl⟩⟩
  | ok plan =>
      simp only
      obtain ⟨exit, commit, hv, rfl⟩ := validateMode_ok hval
      obtain ⟨w, t, happly, hback, hadv⟩ := apply_eq hv
      have hle := (recordOk_facts hv.record_ok).fuel
      rw [hfuel] at hadv hle
      exact ⟨_, _, happly, .inr ⟨_, rfl, hle, ⟨exit, hv.site, rfl, hback⟩, hadv⟩⟩

/-- **Region commit is safe against any runner.**  From any window and store, whatever the runner
returns: the entry never fails; it refuses and nothing changed; or it commits an exit of the
static table, writing back only the slots that exit may write. -/
theorem enter_safe (r : Region) (window : List Value) (s : Store) (cancelPending : Bool)
    (fuel : Nat) (room : Room) (runner : Runner) :
    ∃ outcome sc, enter r cancelPending fuel room runner ⟨window, s⟩ = (.ok outcome, sc) ∧
      ((∃ refused, outcome = .error refused ∧ sc = ⟨window, s⟩) ∨
        ∃ exited entered, outcome = .ok exited ∧
          unboxMode false r window s cancelPending fuel room = .ok entered ∧
          Committed r window s fuel (runner.run r entered.cells (.new entered.fuel)).1
            (runner.run r entered.cells (.new entered.fuel)).2.1 exited sc) := by
  unfold enter
  rw [run_get_bind]
  cases hunbox : unboxMode false r window s cancelPending fuel room with
  | error refused =>
      simp only
      exact ⟨.error refused, ⟨window, s⟩, rfl, .inl ⟨refused, rfl, rfl⟩⟩
  | ok entered =>
      simp only
      have hfuel : entered.fuel.val = fuel := unboxMode_fuel hunbox
      obtain ⟨outcome, sc, hrun, h⟩ := settle_safe hfuel
      refine ⟨outcome, sc, hrun, ?_⟩
      obtain h | ⟨exited, hout, hcommit⟩ := h
      · exact .inl h
      · exact .inr ⟨exited, entered, hout, rfl, hcommit⟩

end Region

end Rnx
