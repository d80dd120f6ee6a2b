import Rnx.Lib.Within
import Rnx.Store.Reachable

/-!
# What every operation changes

The operations of the store change it in few ways: an entry is rewritten in place, a payload is
admitted, an entry is retired, and fields beside the table are written.  A relation that allows
these steps holds across every call, whether it returns or fails.  The steps do not write the guard
of a sort; the calls that do are left to the relation.
-/

namespace Rnx

open ErrState

/-- Whether a payload is the guard of a sort. -/
def Payload.isGuard : Payload → Bool
  | .sortGuard _ => true
  | _ => false

/-- A rewrite of an entry keeps its payload and adds no reader, or leaves no guard. -/
def Entry.Spares (e e' : Entry) : Prop :=
  (e'.payload = e.payload ∧ e'.readers ≤ e.readers) ∨ e'.payload.isGuard = false

namespace Store

variable {s t : Store} {h k : Handle} {α : Type} {R : Store → Store → Prop}

/-! ## Steps -/

/-- A relation between stores that allows writes of the fields beside the table. -/
class Quiet (R : Store → Store → Prop) : Prop extends IsPreorder Store R where
  quiet : ∀ {s t : Store}, t.slots = s.slots → t.free = s.free → R s t

section

variable [Quiet R]

/-- A write of fields other than the slots and the free list. -/
lemma quiet_evolves {f : Store → Store} (h : ∀ s, (f s).slots = s.slots ∧ (f s).free = s.free) :
    Within R (update f : M Unit) :=
  .update fun s => Quiet.quiet (h s).1 (h s).2

lemma alloc_evolves (bytes : Nat) : Within R (alloc bytes) := by
  constructor
  intro s
  unfold alloc
  split_ifs
  · exact refl_of R s
  · exact refl_of R s
  · exact Quiet.quiet rfl rfl
  · exact Quiet.quiet rfl rfl

lemma reserveWork_evolves (newEdges queued : Nat) : Within R (reserveWork newEdges queued) := by
  unfold reserveWork
  apply Within.bind .get
  intro s
  apply Within.bind (.ofExcept _)
  intro needed
  split
  · exact .pure _
  · exact .bind (alloc_evolves _) fun _ => quiet_evolves fun _ => ⟨rfl, rfl⟩

lemma reserveFree_evolves : Within R reserveFree := by
  unfold reserveFree
  apply Within.bind .get
  intro s
  split
  · exact .pure _
  · exact .bind (alloc_evolves _) fun _ => quiet_evolves fun _ => ⟨rfl, rfl⟩

lemma reserveTable_evolves : Within R reserveTable := by
  unfold reserveTable
  apply Within.bind .get
  intro s
  split
  · exact .pure _
  · exact .bind (alloc_evolves _) fun _ => quiet_evolves fun _ => ⟨rfl, rfl⟩

lemma reserveSlot_evolves : Within R reserveSlot := by
  unfold reserveSlot
  apply Within.bind .get
  intro s
  exact .ite (.bind reserveFree_evolves fun _ => reserveTable_evolves) (.pure _)

end

/-- A relation that also allows rewriting an entry. -/
class Rewrites (R : Store → Store → Prop) : Prop extends Quiet R where
  modify : ∀ (s : Store) (i : Nat) {f : Entry → Entry}, (∀ e : Entry, e.Spares (f e)) → R s (s.modify i f)

section

variable [Rewrites R]

/-- A rewrite of one entry that keeps its payload. -/
lemma touch_evolves (i : Nat) {f : Entry → Entry}
    (hf : ∀ e, (f e).payload = e.payload ∧ (f e).readers ≤ e.readers) :
    Within R (update (·.modify i f) : M Unit) :=
  .update fun s => Rewrites.modify s i fun e => .inl (hf e)

/-- A rewrite of one entry, with fields beside the table. -/
lemma evolves_write {i : Nat} {f : Entry → Entry} (hf : ∀ e, (f e).payload.isGuard = false)
    (hslots : t.slots = (s.modify i f).slots) (hfree : t.free = s.free) : R s t :=
  trans_of R (Rewrites.modify s i fun e => .inr (hf e)) (Quiet.quiet hslots hfree)

/-- A rewrite of two entries, with fields beside the table. -/
lemma evolves_modifyTwo {f g : Entry → Entry} (hslots : t.slots = (s.modifyTwo h k f g).slots)
    (hfree : t.free = s.free) (hf : ∀ e : Entry, e.Spares (f e)) (hg : ∀ e : Entry, e.Spares (g e)) : R s t :=
  trans_of R (trans_of R (Rewrites.modify s _ hf) (Rewrites.modify _ _ hg))
    (Quiet.quiet hslots hfree)

/-! ## Retention and admission -/

lemma retain_evolves (v : Value) : Within R (retain v) := by
  unfold retain
  split
  · apply Within.bind (.read _)
    intro e
    split_ifs
    · exact touch_evolves _ fun _ => ⟨rfl, Nat.le_refl _⟩
    · exact .fail _
  · exact .pure _

lemma undoAdmissionEdges_evolves (vs : List Value) : Within R (undoAdmissionEdges vs) := by
  induction vs with
  | nil => exact .pure _
  | cons v vs ih =>
      unfold undoAdmissionEdges
      split
      · contradiction
      · rename_i heq
        obtain ⟨rfl, rfl⟩ := List.cons.inj heq
        exact .bind (touch_evolves _ fun _ => ⟨rfl, Nat.le_refl _⟩) fun _ => ih
      · rename_i heq
        obtain ⟨rfl, rfl⟩ := List.cons.inj heq
        exact ih

lemma retainChildren_evolves (done vs : List Value) : Within R (retainChildren done vs) := by
  induction vs generalizing done with
  | nil => exact .pure _
  | cons v vs ih =>
      unfold retainChildren
      apply Within.bind (.attempt (retain_evolves v))
      intro r
      cases r with
      | ok x => exact ih _
      | error e => exact .bind (undoAdmissionEdges_evolves done) fun _ => .fail e

lemma setPayload_evolves (h : Handle) (p : Payload) (hp : p.isGuard = false) :
    Within R (setPayload h p) :=
  .update fun _ => evolves_write (fun _ => hp) rfl rfl

lemma setChild_evolves (h : Handle) (p : Payload) (edges : Nat) (hp : p.isGuard = false) :
    Within R (setChild h p edges) :=
  .update fun _ => evolves_write (fun _ => hp) rfl rfl

lemma setCharged_evolves (h : Handle) (p : Payload) (charged bytes edges : Nat)
    (hp : p.isGuard = false) : Within R (setCharged h p charged bytes edges) :=
  .update fun _ => evolves_write (fun _ => hp) rfl rfl

end

/-- A relation that allows the steps of the operations: admitting and retiring entries too. -/
class Evolves (R : Store → Store → Prop) : Prop extends Rewrites R where
  admits : ∀ p : Payload, p.isGuard = false → Within R (admitPayload p)
  retire : ∀ {s : Store} {h : Handle} {e : Entry}, s.at? h = some e →
    R s ((s.vacate h.slot).unlink e)

section

variable [Evolves R]

lemma admitPayload_evolves (p : Payload) (hp : p.isGuard = false) : Within R (admitPayload p) :=
  Evolves.admits p hp

lemma setEdges_evolves (n : Nat) : Within R (setEdges n) := quiet_evolves fun _ => ⟨rfl, rfl⟩

lemma replacementEdges_evolves (old new : Value) : Within R (replacementEdges old new) := by
  unfold replacementEdges
  apply Within.bind .get
  intro s
  apply Within.bind (.ofExcept _)
  intro next
  exact .bind (reserveWork_evolves _ _) fun _ => .pure _

/-! ## Constructors -/

lemma ensureOpen_evolves : Within R ensureOpen := by
  unfold ensureOpen
  exact .bind .get fun _ => .guardWith _ _

lemma ensureRoom_evolves (bytes : Nat) : Within R (ensureRoom bytes) := by
  unfold ensureRoom
  exact .bind .get fun _ => .guardWith _ _

lemma string_evolves (t : List Char) : Within R (string t) := by
  unfold string
  apply Within.bind ensureOpen_evolves
  intro _
  apply Within.bind (ensureRoom_evolves _)
  intro _
  exact .bind (alloc_evolves _) fun _ => admitPayload_evolves _ rfl

lemma stringOwned_evolves (t : Text) : Within R (stringOwned t) := admitPayload_evolves _ rfl

lemma stringFrom_evolves (v : Value) : Within R (stringFrom v) := by
  unfold stringFrom
  apply Within.bind ensureOpen_evolves
  intro _
  apply Within.bind (.read _)
  intro t
  apply Within.bind (ensureRoom_evolves _)
  intro _
  exact .bind (alloc_evolves _) fun _ => stringOwned_evolves _

lemma list_evolves (tag : Ty) (values : List Value) : Within R (list tag values) := by
  unfold list
  apply Within.bind ensureOpen_evolves
  intro _
  apply Within.bind .get
  intro s
  split
  · exact .fail _
  · apply Within.bind (.guardWith _ _)
    intro _
    apply Within.bind (.ofExcept _)
    intro bytes
    apply Within.bind (ensureRoom_evolves _)
    intro _
    exact .bind (alloc_evolves _) fun _ => admitPayload_evolves _ rfl

lemma closure_evolves (code function : Nat) (env : Value) :
    Within R (closure code function env) := by
  unfold closure
  apply Within.bind ensureOpen_evolves
  intro _
  split
  · apply Within.bind (.read _)
    intro p
    split
    · apply Within.bind (.ofExcept _)
      intro bytes
      apply Within.bind (ensureRoom_evolves _)
      intro _
      exact .bind (alloc_evolves _) fun _ => admitPayload_evolves _ rfl
    · exact .fail _
  · exact .fail _

lemma allocKeys_evolves (fields : List (List Char × Value)) : Within R (allocKeys fields) := by
  induction fields with
  | nil => exact .pure _
  | cons f fs ih => exact .bind (alloc_evolves _) fun _ => ih

lemma record_evolves (tag : Ty) (fields : List (List Char × Value)) :
    Within R (record tag fields) := by
  unfold record
  apply Within.bind ensureOpen_evolves
  intro _
  have hrecord : ∀ tag : Ty, Within R (do
      let bytes ← ofExcept (recordBytes fields)
      let s ← get
      guardWith (bytes ≤ s.roomLeft ∧ s.entryRoom) (err .storeCapacity)
      alloc (fields.length * sizeField)
      allocKeys fields
      admitPayload (.record tag (.copy (fields.map fun f => (.copy f.1, f.2)))) : M Value) := by
    intro tag
    apply Within.bind (.ofExcept _)
    intro bytes
    apply Within.bind .get
    intro s
    apply Within.bind (.guardWith _ _)
    intro _
    apply Within.bind (alloc_evolves _)
    intro _
    exact .bind (allocKeys_evolves _) fun _ => admitPayload_evolves _ rfl
  split
  · exact hrecord _
  · exact hrecord _
  · exact .fail _

lemma variant_evolves (tag : Ty) (success : Bool) (payload : Option Value) :
    Within R (variant tag success payload) := by
  unfold variant
  exact .bind (.guardWith _ _) fun _ => admitPayload_evolves _ rfl

lemma boxed_evolves (bytes : Nat) (e : Error) : Within R (boxed bytes e) := by
  unfold boxed
  apply Within.bind (.attempt (alloc_evolves bytes))
  intro r
  cases r with
  | ok x => exact .pure _
  | error x => exact .fail _

lemma otherRange_evolves (tag : Ty) (args : List Value) : Within R (otherRange tag args) := by
  unfold otherRange
  split
  · exact .bind (boxed_evolves _ _) fun _ => admitPayload_evolves _ rfl
  · exact .fail _

lemma vecWithCapacity_evolves (capacity : Nat) : Within R (vecWithCapacity capacity) := by
  unfold vecWithCapacity
  apply Within.bind (.guardWith _ _)
  intro _
  apply Within.bind ensureOpen_evolves
  intro _
  apply Within.bind .get
  intro s
  apply Within.bind (.guardWith _ _)
  intro _
  exact .bind (alloc_evolves _) fun _ => admitPayload_evolves _ rfl

lemma concatString_evolves (a b : Value) : Within R (concatString a b) := by
  unfold concatString
  apply Within.bind (.read _)
  intro left
  apply Within.bind (.read _)
  intro right
  apply Within.bind (.ofExcept _)
  intro len
  apply Within.bind (ensureRoom_evolves _)
  intro _
  exact .bind (alloc_evolves _) fun _ => admitPayload_evolves _ rfl

/-! ## Release -/

lemma sortRestore_evolves (st : SortState) : Within R (sortRestore st) := by
  unfold sortRestore
  apply Within.bind (.read _)
  intro e
  apply Within.bind (.guardWith _ _)
  intro _
  exact .bind (.update fun _ => evolves_write (fun _ => rfl) rfl rfl) fun _ => .pure _

lemma endLease_evolves (h : Handle) : Within R (endLease h) := by
  unfold endLease
  apply Within.bind (.read _)
  intro e
  exact .bind (.guardWith _ _) fun _ => touch_evolves _ fun e => ⟨rfl, Nat.sub_le _ _⟩

lemma prepareBoxedDetach_evolves (p : Payload) : Within R (prepareBoxedDetach p) := by
  unfold prepareBoxedDetach
  split
  · split_ifs
    · exact .bind (sortRestore_evolves _) fun _ => .pure _
    · exact .pure _
  · split
    · apply Within.bind (.attempt (endLease_evolves _))
      intro r
      cases r with
      | ok x => exact .pure _
      | error x => exact .pure _
    · exact .pure _
  · exact .pure _

lemma detachVectorLease_evolves (p : Payload) (failure : Option Error) :
    Within R (detachVectorLease p failure) := by
  unfold detachVectorLease
  split
  · apply Within.bind (.attempt (endLease_evolves _))
    intro r
    cases r with
    | ok x => exact .pure _
    | error x => exact .pure _
  · exact .pure _

lemma queue_evolves (vs : List Value) : Within R (queue vs) := quiet_evolves fun _ => ⟨rfl, rfl⟩

lemma enqueueChildren_evolves (p : Payload) : Within R (enqueueChildren p) := by
  unfold enqueueChildren
  apply Within.bind (prepareBoxedDetach_evolves p)
  intro r
  apply Within.bind .get
  intro s
  apply Within.bind (.ofExcept _)
  intro edges
  apply Within.bind (setEdges_evolves _)
  intro _
  apply Within.bind (detachVectorLease_evolves _ _)
  intro failure
  apply Within.bind (queue_evolves _)
  intro _
  cases failure with
  | none => exact .pure _
  | some e => exact .fail _

/-- A release keeps its handle live, or vacates its slot. -/
lemma releaseOne_evolves (h : Handle) : Within R (releaseOne h) := by
  unfold releaseOne
  apply Within.of_wp
  intro s
  have hkeep : R s s := refl_of R s
  refine wp_read_bind (fun _ _ => hkeep) ?_
  intro e he
  have hh : s.at? h = some e := (entry_eq_ok.1 he).2
  have hretire : R s ((s.vacate h.slot).unlink e) := Evolves.retire hh
  refine wp_guardWith_bind (fun _ => hkeep) ?_
  intro _
  apply wp_ite
  · intro _
    exact Rewrites.modify s h.slot fun _ => .inl ⟨rfl, Nat.le_refl _⟩
  · intro _
    -- Everything before the retirement is a check.
    refine wp_guardWith_bind (fun _ => hkeep) ?_
    intro _
    rw [wp_get_bind]
    refine wp_guardWith_bind (fun _ => hkeep) ?_
    intro _
    refine wp_guardWith_bind (fun _ => hkeep) ?_
    intro _
    refine wp_guardWith_bind (fun _ => hkeep) ?_
    intro _
    refine wp_guardWith_bind (fun _ => hkeep) ?_
    intro _
    refine wp_ofExcept_bind (fun _ _ => hkeep) ?_
    intro _ _
    rw [wp_update_bind]
    refine Within.after ?_ hretire
    exact .bind (quiet_evolves fun _ => ⟨rfl, rfl⟩) fun _ => enqueueChildren_evolves e.payload

lemma drainLoop_evolves (fuel : Nat) (failure : Option Error) :
    Within R (drainLoop fuel failure) := by
  induction fuel generalizing failure with
  | zero => exact .ofExcept _
  | succ fuel ih =>
      unfold drainLoop
      apply Within.bind .get
      intro s
      split
      · exact .ofExcept _
      · refine Within.bind (quiet_evolves fun _ => ⟨rfl, rfl⟩) ?_
        intro _
        split
        · exact .bind (.attempt (releaseOne_evolves _)) fun _ => ih _
        · exact ih _

lemma drainWork_evolves (failure : Option Error) : Within R (drainWork failure) := by
  unfold drainWork
  exact .bind .get fun _ => drainLoop_evolves _ _

lemma release_evolves (v : Value) : Within R (release v) := by
  unfold release
  apply Within.bind ensureOpen_evolves
  intro _
  split
  · apply Within.bind .get
    intro s
    apply Within.ite
    · exact drainWork_evolves _
    · exact .bind (.attempt (releaseOne_evolves _)) fun _ => drainWork_evolves _
  · exact drainWork_evolves _

/-! ## Reading and replacing -/

lemma getElement_evolves (v : Value) (index : Nat) : Within R (getElement v index) := by
  unfold getElement
  split
  · apply Within.bind (.read _)
    intro p
    split
    · split
      · exact .bind (retain_evolves _) fun _ => .pure _
      · exact .fail _
    · exact .fail _
  · exact .fail _

lemma replaceChild_evolves (h : Handle) (p : Payload) (old new : Value) (hp : p.isGuard = false) :
    Within R (replaceChild h p old new) := by
  unfold replaceChild
  apply Within.bind (replacementEdges_evolves _ _)
  intro edges
  apply Within.bind (retain_evolves _)
  intro _
  exact .bind (setChild_evolves _ _ _ hp) fun _ => release_evolves _

lemma set_evolves (v : Value) (index : Nat) (new : Value) : Within R (set v index new) := by
  unfold set
  split
  · apply Within.bind (.read _)
    intro p
    split
    · split
      · exact replaceChild_evolves _ _ _ _ rfl
      · exact .fail _
    · exact .fail _
  · exact .fail _

lemma fieldSetMut_evolves (v : Value) (key : List Char) (new : Value) :
    Within R (fieldSetMut v key new) := by
  unfold fieldSetMut
  split
  · apply Within.bind (.read _)
    intro p
    split
    · split
      · split
        · apply Within.bind .get
          intro s
          exact .ite (.pure _) (replaceChild_evolves _ _ _ _ rfl)
        · exact .fail _
      · exact .fail _
    · exact .fail _
  · exact .fail _

/-- A guard has no tuple places. -/
lemma not_guard_of_tuplePlace {p : Payload} {index : Nat} {old : Value} (new : Value)
    (hp : tuplePlace p index = some old ∨ tuplePlaceMut p index = some old) :
    (withTuplePlace p index new).isGuard = false := by
  cases p with
  | sortGuard st => rcases hp with hp | hp <;> cases hp
  | _ => rfl

lemma replaceTuplePlace_evolves (h : Handle) (p : Payload) (index : Nat) (old new : Value)
    (hp : tuplePlace p index = some old ∨ tuplePlaceMut p index = some old) :
    Within R (replaceTuplePlace h p index old new) := by
  unfold replaceTuplePlace
  apply Within.bind .get
  intro s
  exact .ite (.pure _) (replaceChild_evolves _ _ _ _ (not_guard_of_tuplePlace new hp))

lemma tupleSetError_evolves (v : Value) : Within R (tupleSetError v) := by
  unfold tupleSetError
  exact .bind (.read _) fun _ => .fail _

lemma tupleSet_evolves (v : Value) (index : Nat) (new : Value) :
    Within R (tupleSet v index new) := by
  unfold tupleSet
  split
  · apply Within.bind (.read _)
    intro p
    split
    · rename_i old hold
      exact replaceTuplePlace_evolves _ _ _ _ _ (.inl hold)
    · exact tupleSetError_evolves _
  · exact tupleSetError_evolves _

lemma tupleSetMut_evolves (v : Value) (index : Nat) (new : Value) :
    Within R (tupleSetMut v index new) := by
  unfold tupleSetMut
  split
  · apply Within.bind (.read _)
    intro p
    split
    · rename_i old hold
      exact replaceTuplePlace_evolves _ _ _ _ _ (.inr hold)
    · exact .fail _
  · exact .fail _

lemma not_guard_canonicalRange (a b : Value) : (canonicalRange a b).isGuard = false := by
  unfold canonicalRange
  split
  · rfl
  · rfl

lemma setRangeField_evolves (h : Handle) (key : List Char) (new : Value) :
    Within R (setRangeField h key new) := by
  unfold setRangeField
  split
  · exact .fail _
  · apply Within.bind (.read _)
    intro p
    apply Within.bind (.ofExcept _)
    intro ends
    apply Within.bind (.ofExcept _)
    intro charge
    apply Within.bind (.read _)
    intro bytes
    apply Within.bind (replacementEdges_evolves _ _)
    intro edges
    apply Within.bind (retain_evolves _)
    intro _
    refine .bind (setCharged_evolves _ _ _ _ _ ?_) fun _ => release_evolves _
    split
    · exact not_guard_canonicalRange _ _
    · exact not_guard_canonicalRange _ _

lemma setOtherRangeField_evolves (h : Handle) (key : List Char) (new : Value) :
    Within R (setOtherRangeField h key new) := by
  unfold setOtherRangeField
  apply Within.bind (.read _)
  intro p
  split
  · split
    · split
      · exact replaceChild_evolves _ _ _ _ rfl
      · exact .fail _
    · split
      · exact replaceChild_evolves _ _ _ _ rfl
      · exact .fail _
    · exact .fail _
  · exact .fail _

lemma replaceText_evolves (h : Handle) (t : Text) : Within R (replaceText h t) := by
  unfold replaceText
  apply Within.bind (.read _)
  intro bytes
  exact .bind .get fun _ => setCharged_evolves _ _ _ _ _ rfl

lemma appendString_evolves (target rhs : Value) : Within R (appendString target rhs) := by
  unfold appendString
  split
  · apply Within.bind (.read _)
    intro p
    split
    · apply Within.bind (.read _)
      intro suffix
      apply Within.bind (.ofExcept _)
      intro len
      apply Within.bind (ensureRoom_evolves _)
      intro _
      apply Within.ite
      · exact .bind (alloc_evolves _) fun _ => replaceText_evolves _ _
      · apply Within.bind (alloc_evolves _)
        intro _
        split
        · exact setPayload_evolves _ _ rfl
        · exact .fail _
    · exact .fail _
  · exact .fail _

lemma pushChar_evolves (v new : Value) : Within R (pushChar v new) := by
  unfold pushChar
  split
  · apply Within.bind (.read _)
    intro p
    split
    · split
      · apply Within.bind (.ofExcept _)
        intro needed
        apply Within.bind (ensureRoom_evolves _)
        intro _
        apply Within.ite
        · exact .bind (alloc_evolves _) fun _ => replaceText_evolves _ _
        · split
          · exact setPayload_evolves _ _ rfl
          · exact .fail _
      · exact .bind (.read _) fun _ => .fail _
    · exact .fail _
  · exact .fail _

lemma push_evolves (v new : Value) : Within R (push v new) := by
  unfold push
  split
  · apply Within.bind (.read _)
    intro tag
    apply Within.ite (pushChar_evolves _ _)
    apply Within.bind (.read _)
    intro p
    split
    · apply Within.bind .get
      intro s
      apply Within.bind (.ofExcept _)
      intro edges
      apply Within.bind (reserveWork_evolves _ _)
      intro _
      split
      · exact .bind (retain_evolves _) fun _ => setChild_evolves _ _ _ rfl
      · apply Within.bind (.ofExcept _)
        intro growth
        apply Within.bind (.read _)
        intro _
        apply Within.bind (alloc_evolves _)
        intro _
        apply Within.bind (.ofExcept _)
        intro charged
        apply Within.bind (.read _)
        intro bytes
        exact .bind (retain_evolves _) fun _ => setCharged_evolves _ _ _ _ _ rfl
    · exact .fail _
  · exact .fail _

/-! ## Records -/

lemma insertKey_evolves (h : Handle) (tag : Ty) (fields : Buf (Text × Value)) (key : List Char)
    (new : Value) : Within R (insertKey h tag fields key new) := by
  unfold insertKey
  dsimp only
  apply Within.bind (.ofExcept _)
  intro keyBytes
  apply Within.bind (.ofExcept _)
  intro next
  apply Within.bind (.ofExcept _)
  intro planned
  apply Within.bind (.read _)
  intro _
  apply Within.bind (alloc_evolves _)
  intro _
  have hrest : Within R (do
      let charged ← ofExcept (fieldsCharge next keyBytes (utf8Len key))
      let bytes ← read (·.replacementBytes h charged)
      let s ← get
      let edges ← ofExcept (okOr (checkedAdd s.edges new.heapEdge) (err .overflow))
      reserveWork new.heapEdge 0
      guardWith (fields.items.length + 1 ≤ next) (.new .invalidCode "field capacity")
      retain new
      setCharged h (.record tag (.filled next (fields.items ++ [(.copy key, new)]))) charged bytes
        edges : M Unit) := by
    apply Within.bind (.ofExcept _)
    intro charged
    apply Within.bind (.read _)
    intro bytes
    apply Within.bind .get
    intro s
    apply Within.bind (.ofExcept _)
    intro edges
    apply Within.bind (reserveWork_evolves _ _)
    intro _
    apply Within.bind (.guardWith _ _)
    intro _
    exact .bind (retain_evolves _) fun _ => setCharged_evolves _ _ _ _ _ rfl
  apply Within.ite
  · exact .bind (alloc_evolves _) fun _ => hrest
  · exact hrest

lemma setKey_evolves (v : Value) (key : RecordKey) (new : Value) :
    Within R (setKey v key new) := by
  unfold setKey
  split
  · apply Within.bind (.read _)
    intro p
    apply Within.bind (.read _)
    intro text
    split
    · split
      · split
        · exact replaceChild_evolves _ _ _ _ rfl
        · exact .fail _
      · apply Within.ite
        · exact insertKey_evolves _ _ _ _ _
        · exact .bind (.read _) fun _ => .fail _
    · exact .fail _
  · exact .fail _

lemma rollback_evolves (result : Value) (e : Error) : Within R (rollback (α := α) result e) := by
  unfold rollback
  exact .bind (release_evolves _) fun _ => .fail _

lemma removeField_evolves (receiver : Value) (i : Nat) :
    Within R (removeField receiver i) := by
  unfold removeField
  split
  · apply Within.bind (.read _)
    intro fields
    split
    · apply Within.bind (variant_evolves _ _ _)
      intro result
      apply Within.bind
      · apply Within.attempt
        apply Within.bind (.read _)
        intro e
        apply Within.bind (.ofExcept _)
        intro charged
        apply Within.bind (.read _)
        intro bytes
        exact .bind (replacementEdges_evolves _ _) fun _ => .pure _
      · intro staged
        split
        · exact rollback_evolves _ _
        · apply Within.bind (.read _)
          intro p
          split
          · apply Within.bind (setCharged_evolves _ _ _ _ _ rfl)
            intro _
            exact .bind (release_evolves _) fun _ => .pure _
          · exact .fail _
    · exact .fail _
  · exact .fail _

lemma insertField_evolves (receiver key new : Value) :
    Within R (insertField receiver key new) := by
  unfold insertField
  have hwrapped : ∀ result, Within R (insertWrapped receiver key new result) := by
    intro result
    unfold insertWrapped
    apply Within.bind (.attempt (setKey_evolves _ _ _))
    intro r
    cases r with
    | ok x => exact .pure _
    | error e => exact rollback_evolves _ _
  apply Within.bind (.read _)
  intro index
  apply Within.bind (.read _)
  intro fields
  split
  · exact .bind (variant_evolves _ _ _) hwrapped
  · exact .bind (variant_evolves _ _ _) hwrapped

lemma objectMethod_evolves (m : ObjectMethod) (receiver key new : Value) :
    Within R (objectMethod m receiver key new) := by
  unfold objectMethod
  apply Within.bind (.read _)
  intro tag
  apply Within.ite
  · cases m with
    | isEmpty =>
        apply Within.bind (.read _)
        intro _
        exact .bind (.read _) fun _ => .pure _
    | containsKey =>
        apply Within.bind (.read _)
        intro _
        apply Within.bind (.read _)
        intro _
        exact .bind (.read _) fun _ => .pure _
    | get =>
        apply Within.bind (.read _)
        intro _
        apply Within.bind (.read _)
        intro _
        apply Within.bind (.read _)
        intro index
        apply Within.bind (.read _)
        intro fields
        split
        · exact variant_evolves _ _ _
        · exact variant_evolves _ _ _
    | remove =>
        apply Within.bind (.read _)
        intro _
        apply Within.bind (.read _)
        intro _
        apply Within.bind (.read _)
        intro index
        split
        · exact removeField_evolves _ _
        · exact variant_evolves _ _ _
    | insert =>
        apply Within.bind (.read _)
        intro _
        apply Within.bind (.read _)
        intro _
        exact insertField_evolves _ _ _
  · exact .bind (.read _) fun _ => .fail _

/-! ## Moving -/

/-- The guard of a sort cannot be taken. -/
lemma not_guard_of_takeCheck {e : Entry} (he : s.takeCheck h = .ok e) :
    e.payload.isGuard = false := by
  unfold takeCheck at he
  obtain ⟨x, -, he⟩ := Except.bind_eq_ok.1 he
  split_ifs at he
  split at he
  · cases he
  · cases he
  · rename_i hmoved hguard
    obtain rfl := Except.ok.inj he
    cases hp : x.payload with
    | sortGuard st => exact absurd hp (hguard st)
    | _ => rfl

lemma takeCapture_evolves (v : Value) : Within R (takeCapture v) := by
  unfold takeCapture
  apply Within.bind ensureOpen_evolves
  intro _
  split
  · apply Within.bind_read
    intro s e he
    have hguard := not_guard_of_takeCheck he
    apply Within.bind (admitPayload_evolves _ rfl)
    intro w
    split
    · refine .bind (.update fun s => ?_) fun _ => .pure _
      exact evolves_modifyTwo rfl rfl (fun _ => .inr rfl) fun _ => .inr hguard
    · exact .fail _
  · exact .pure _

lemma prepareOpaqueDrop_evolves (h : Handle) : Within R (prepareOpaqueDrop h) := by
  unfold prepareOpaqueDrop
  apply Within.bind (.read _)
  intro e
  apply Within.ite (.pure _)
  apply Within.bind (.read _)
  intro name
  have hsweep : ∀ s, (sweepNames s).slots = s.slots ∧ (sweepNames s).free = s.free := by
    intro s
    unfold sweepNames
    split_ifs
    · exact ⟨rfl, rfl⟩
    · exact ⟨rfl, rfl⟩
  apply Within.bind (quiet_evolves hsweep)
  intro _
  apply Within.bind .get
  intro s
  split
  · exact .pure _
  · apply Within.bind (alloc_evolves _)
    intro _
    exact .bind (quiet_evolves fun _ => ⟨rfl, rfl⟩) fun _ => .pure _

lemma invalidate_evolves (v : Value) : Within R (invalidate v) := by
  unfold invalidate
  split
  · apply Within.bind (.read _)
    intro e
    apply Within.bind (.read _)
    intro _
    apply Within.bind .get
    intro s
    apply Within.bind (.ofExcept _)
    intro bytes
    apply Within.bind (prepareOpaqueDrop_evolves _)
    intro name
    refine Within.bind (.update fun s => evolves_write (fun _ => rfl) rfl rfl) ?_
    intro _
    apply Within.bind (.attempt (enqueueChildren_evolves _))
    intro r
    cases r with
    | ok x => exact drainWork_evolves _
    | error x => exact drainWork_evolves _
  · exact .pure _

/-! ## Cloning -/

/-- A relation on the stores among the locals. -/
def LocalsEvolve (R : Store → Store → Prop) (c d : Cloning × Store) : Prop := R c.2 d.2

instance : IsPreorder (Cloning × Store) (LocalsEvolve R) where
  refl c := refl_of R c.2
  trans _ _ _ h h' := trans_of R h h'

omit [Evolves R] in
lemma onStore_evolves {m : M α} (h : Within R m) : Within (LocalsEvolve R) (onStore m) :=
  ⟨fun c => h.run c.2⟩

lemma locals_evolves : Within (LocalsEvolve R) locals := ⟨fun c => refl_of R c.2⟩

lemma setLocals_evolves (f : Cloning → Cloning) : Within (LocalsEvolve R) (setLocals f) :=
  ⟨fun c => refl_of R c.2⟩

omit [Evolves R] in
lemma runLocals_evolves {m : CM α} (h : Within (LocalsEvolve R) m) (c : Cloning) :
    Within R (runLocals m c) :=
  ⟨fun s => h.run (c, s)⟩

lemma admitClone_evolves (p : Payload) (start scratch : Nat) (hp : p.isGuard = false) :
    Within R (admitClone p start scratch) := by
  unfold admitClone
  apply Within.bind (.ofExcept _)
  intro charge
  exact .bind (.read _) fun _ => admitPayload_evolves _ hp

lemma cloneKeys_evolves (start scratch capacity : Nat) (fields : List (Text × Value)) (n : Nat) :
    Within R (cloneKeys start scratch capacity fields n) := by
  induction fields generalizing n with
  | nil => exact .pure _
  | cons f fs ih =>
      unfold cloneKeys
      apply Within.bind (alloc_evolves _)
      intro _
      apply Within.bind (.ofExcept _)
      intro keyBytes
      apply Within.bind (.ofExcept _)
      intro actual
      exact .bind (.read _) fun _ => ih _

lemma cloneLeaf_evolves (v : Value) (start scratch : Nat) :
    Within R (cloneLeaf v start scratch) := by
  unfold cloneLeaf
  split
  · apply Within.bind (.read _)
    intro p
    have hrefused : ∀ h : Handle, Within R (do
        let e ← read (·.entry h)
        fail ((err .type).withDetail (.noCloneProtocol (.fromType e.payload.tag))) : M Value) :=
      fun h => .bind (.read _) fun _ => .fail _
    have hlist : ∀ (tag : Ty) (values : Buf Value), Within R (do
        let size ← ofExcept (okOr (checkedMul values.items.length sizeValue) (err .storeCapacity))
        read (·.cloneRoom start scratch size)
        alloc size
        admitClone (.list tag (.copy values.items)) start scratch : M Value) := by
      intro tag values
      apply Within.bind (.ofExcept _)
      intro size
      apply Within.bind (.read _)
      intro _
      exact .bind (alloc_evolves _) fun _ => admitClone_evolves _ _ _ rfl
    have hrecord : ∀ (tag : Ty) (fields : Buf (Text × Value)), Within R (do
        let size ← ofExcept (okOr ((checkedMul fields.items.length sizeField).bind
          (keyLengths · fields.items)) (err .storeCapacity))
        read (·.cloneRoom start scratch size)
        alloc (fields.items.length * sizeField)
        cloneKeys start scratch fields.items.length fields.items 0
        admitClone (.record tag (.copy (fields.items.map fun f => (.copy f.1.chars, f.2))))
          start scratch : M Value) := by
      intro tag fields
      apply Within.bind (.ofExcept _)
      intro size
      apply Within.bind (.read _)
      intro _
      apply Within.bind (alloc_evolves _)
      intro _
      exact .bind (cloneKeys_evolves _ _ _ _ _) fun _ => admitClone_evolves _ _ _ rfl
    split
    · exact .bind (retain_evolves _) fun _ => .pure _
    · apply Within.bind (.read _)
      intro _
      exact .bind (alloc_evolves _) fun _ => admitClone_evolves _ _ _ rfl
    · split
      · exact hlist _ _
      · exact hlist _ _
      · exact hrefused _
    · split
      · exact hrecord _ _
      · exact hrecord _ _
      · exact hrefused _
    · exact hrefused _
  · exact .bind (retain_evolves _) fun _ => .pure _

lemma growStack_evolves (start : Nat) : Within (LocalsEvolve R) (growStack start) := by
  unfold growStack
  apply Within.bind locals_evolves
  intro c
  apply Within.ite
  · apply Within.bind (.ofExcept _)
    intro capacity
    apply Within.bind (.ofExcept _)
    intro old
    apply Within.bind (.ofExcept _)
    intro extra
    apply Within.bind (onStore_evolves (.read _))
    intro _
    apply Within.bind (onStore_evolves (alloc_evolves _))
    intro _
    apply Within.bind (.ofExcept _)
    intro scratch
    exact .bind (setLocals_evolves _) fun _ => onStore_evolves (.read _)
  · exact .pure _

lemma setClonePath_evolves (h : Handle) (mark : Bool) : Within R (setClonePath h mark) := by
  unfold setClonePath
  exact .bind (.read _) fun _ => touch_evolves _ fun _ => ⟨rfl, Nat.le_refl _⟩

lemma cloneFrame_evolves (h : Handle) (start : Nat) : Within (LocalsEvolve R) (cloneFrame h start) := by
  unfold cloneFrame
  apply Within.bind (onStore_evolves (.read _))
  intro e
  apply Within.bind (.guardWith _ _)
  intro _
  apply Within.bind (onStore_evolves (.read _))
  intro p
  apply Within.bind (.ofExcept _)
  intro shape
  apply Within.bind (growStack_evolves _)
  intro _
  apply Within.bind locals_evolves
  intro c
  apply Within.bind (.ofExcept _)
  intro size
  apply Within.bind (onStore_evolves (.read _))
  intro _
  apply Within.bind (onStore_evolves (alloc_evolves _))
  intro _
  apply Within.bind (onStore_evolves (.read _))
  intro _
  apply Within.bind (.guardWith _ _)
  intro _
  apply Within.bind (.ofExcept _)
  intro scratch
  exact .bind (onStore_evolves (setClonePath_evolves _ _)) fun _ => setLocals_evolves _

lemma not_guard_finishPayload (frame : Frame) : (finishPayload frame).isGuard = false := by
  unfold finishPayload
  split <;> rfl

lemma finishClone_evolves (frame : Frame) (start scratch : Nat) :
    Within R (finishClone frame start scratch) := by
  unfold finishClone
  split
  · apply Within.bind (.ofExcept _)
    intro size
    apply Within.bind (.read _)
    intro _
    exact .bind (alloc_evolves _) fun _ => admitClone_evolves _ _ _ (not_guard_finishPayload frame)
  · exact admitClone_evolves _ _ _ (not_guard_finishPayload frame)

lemma releaseAll_evolves (vs : List Value) (failure : Option Error) :
    Within R (releaseAll vs failure) := by
  induction vs generalizing failure with
  | nil => exact .pure _
  | cons v vs ih => exact .bind (.attempt (release_evolves v)) fun _ => ih _

lemma clonePending_evolves (start : Nat) : Within (LocalsEvolve R) (clonePending start) := by
  unfold clonePending
  apply Within.bind locals_evolves
  intro c
  apply Within.bind (setLocals_evolves _)
  intro _
  split
  · exact .pure _
  · apply Within.bind (onStore_evolves (.read _))
    intro e
    apply Within.ite
    · exact cloneFrame_evolves _ _
    · exact .bind (onStore_evolves (cloneLeaf_evolves _ _ _)) fun _ => setLocals_evolves _
  · exact .bind (onStore_evolves (cloneLeaf_evolves _ _ _)) fun _ => setLocals_evolves _

lemma cloneCompleted_evolves : Within (LocalsEvolve R) cloneCompleted := by
  unfold cloneCompleted
  apply Within.bind locals_evolves
  intro c
  split
  · exact .pure _
  · split
    · exact .bind (setLocals_evolves _) fun _ => .pure _
    · split
      · exact .bind (setLocals_evolves _) fun _ => .pure _
      · exact .fail _

lemma cloneSettle_evolves (frame : Frame) (result : Except Error Value) :
    Within (LocalsEvolve R) (cloneSettle frame result) := by
  unfold cloneSettle
  apply Within.bind locals_evolves
  intro c
  apply Within.bind (onStore_evolves (releaseAll_evolves _ _))
  intro cleanup
  apply Within.bind (.ofExcept _)
  intro scratch
  apply Within.bind (setLocals_evolves _)
  intro _
  apply Within.bind (.ofExcept _)
  intro v
  apply Within.bind (setLocals_evolves _)
  intro _
  cases cleanup with
  | none => exact .pure _
  | some e => exact .fail _

lemma cloneTop_evolves (start : Nat) : Within (LocalsEvolve R) (cloneTop start) := by
  unfold cloneTop
  apply Within.bind locals_evolves
  intro c
  split
  · exact .fail _
  · apply Within.ite
    · apply Within.bind (onStore_evolves (.read _))
      intro p
      exact .bind (.ofExcept _) fun _ => setLocals_evolves _
    · apply Within.bind (setLocals_evolves _)
      intro _
      apply Within.bind (onStore_evolves (setClonePath_evolves _ _))
      intro _
      apply Within.bind (onStore_evolves (.attempt (finishClone_evolves _ _ _)))
      intro result
      exact cloneSettle_evolves _ _

lemma cloneRound_evolves (start : Nat) : Within (LocalsEvolve R) (cloneRound start) := by
  unfold cloneRound
  apply Within.bind (clonePending_evolves _)
  intro _
  apply Within.bind cloneCompleted_evolves
  intro r
  cases r with
  | some v => exact .pure _
  | none => exact .bind (cloneTop_evolves _) fun _ => .pure _

lemma cloneLoop_evolves (start fuel : Nat) : Within (LocalsEvolve R) (cloneLoop start fuel) := by
  induction fuel with
  | zero => exact .fail _
  | succ fuel ih =>
      unfold cloneLoop
      apply Within.bind (cloneRound_evolves _)
      intro r
      cases r with
      | some v => exact .pure _
      | none => exact ih

lemma unwindFrames_evolves (frames : List Frame) : Within R (unwindFrames frames) := by
  induction frames with
  | nil => exact .pure _
  | cons frame rest ih =>
      unfold unwindFrames
      apply Within.bind (.attempt (setClonePath_evolves _ _))
      intro _
      exact .bind (releaseAll_evolves _ _) fun _ => ih

lemma cloneValue_evolves (v : Value) : Within R (cloneValue v) := by
  unfold cloneValue
  apply Within.bind .get
  intro s
  apply Within.bind (runLocals_evolves (cloneLoop_evolves _ _) _)
  intro ⟨result, c⟩
  cases result with
  | ok v => exact .pure _
  | error e =>
      refine Within.bind ?_ fun _ => .fail _
      unfold unwindClone
      split
      · apply Within.bind (.attempt (release_evolves _))
        intro _
        exact unwindFrames_evolves _
      · exact unwindFrames_evolves _

/-! ## Sorting and resizing -/

lemma sortValue_evolves (guard : Value) (index : Nat) : Within R (sortValue guard index) := by
  unfold sortValue
  apply Within.bind (.read _)
  intro st
  split
  · exact .bind (retain_evolves _) fun _ => .pure _
  · exact .fail _

lemma resizeHold_evolves (parent : Handle) : Within R (resizeHold parent) := by
  unfold resizeHold
  apply Within.bind (.read _)
  intro e
  split
  · exact .bind (.update fun _ => evolves_write (fun _ => rfl) rfl rfl) fun _ => .pure _
  · exact .fail _

lemma resizeRestore_evolves (parent : Handle) (values : Buf Value) :
    Within R (resizeRestore parent values) := by
  unfold resizeRestore
  exact .bind (.read _) fun _ => .update fun _ => evolves_write (fun _ => rfl) rfl rfl

lemma drain_evolves (vs : List Value) (failure : Option Error) : Within R (drain vs failure) := by
  induction vs generalizing failure with
  | nil => exact .pure _
  | cons old vs ih =>
      unfold drain
      refine Within.bind (quiet_evolves fun _ => ⟨rfl, rfl⟩) ?_
      intro _
      exact .bind (.attempt (release_evolves _)) fun _ => ih _

lemma resizeInline_evolves (parent : Handle) (newLen : Nat) (fill : Value) :
    Within R (resizeInline parent newLen fill) := by
  unfold resizeInline
  apply Within.bind (.guardWith _ _)
  intro _
  apply Within.bind (.read _)
  intro p
  split
  · apply Within.ite
    · split
      · exact setPayload_evolves _ _ rfl
      · exact .fail _
    · apply Within.bind (.ofExcept _)
      intro planned
      apply Within.bind (.read _)
      intro _
      apply Within.bind (alloc_evolves _)
      intro _
      apply Within.bind (.read _)
      intro bytes
      apply Within.bind (.read _)
      intro q
      split
      · exact .update fun _ => evolves_write (fun _ => rfl) rfl rfl
      · exact .fail _
  · exact .fail _

lemma resizeClones_evolves (parent : Handle) (fill : Value) (n : Nat) :
    Within R (resizeClones parent fill n) := by
  induction n with
  | zero => exact .pure _
  | succ n ih =>
      unfold resizeClones
      apply Within.bind (resizeHold_evolves _)
      intro values
      apply Within.bind (.attempt (cloneValue_evolves _))
      intro cloned
      apply Within.bind (resizeRestore_evolves _ _)
      intro _
      apply Within.bind (.ofExcept _)
      intro v
      apply Within.bind (.attempt (push_evolves _ _))
      intro pushed
      apply Within.bind (.attempt (release_evolves _))
      intro released
      apply Within.bind (.ofExcept _)
      intro _
      exact .bind (.ofExcept _) fun _ => ih

lemma vecResize_evolves (receiver length fill : Value) :
    Within R (vecResize receiver length fill) := by
  unfold vecResize
  apply Within.bind (.read _)
  intro tag
  apply Within.ite
  · apply Within.bind (.read _)
    intro _
    split
    · apply Within.bind (.read _)
      intro newLen
      apply Within.bind (.read _)
      intro len
      apply Within.ite
      · apply Within.bind (resizeHold_evolves _)
        intro values
        apply Within.bind (drain_evolves _ _)
        intro failure
        apply Within.bind (resizeRestore_evolves _ _)
        intro _
        cases failure with
        | none => exact .pure _
        | some e => exact .fail _
      · apply Within.ite (.pure _)
        apply Within.ite
        · exact resizeClones_evolves _ _ _
        · exact resizeInline_evolves _ _ _
    · exact .fail _
  · exact .bind (.read _) fun _ => .fail _

/-! ## Iterators -/

lemma otherRangeIterator_evolves (shape : RangeShape) : Within R (otherRangeIterator shape) := by
  unfold otherRangeIterator
  apply Within.bind (.read _)
  intro cursor
  exact .bind (boxed_evolves _ _) fun _ => admitPayload_evolves _ rfl

lemma iterator_evolves (v : Value) : Within R (iterator v) := by
  unfold iterator
  split
  · exact admitPayload_evolves _ rfl
  · apply Within.bind (.read _)
    intro e
    apply Within.ite
    · exact .bind (retain_evolves _) fun _ => .pure _
    · apply Within.bind (.read _)
      intro p
      split
      · exact admitPayload_evolves _ rfl
      · exact .bind (.read _) fun _ => admitPayload_evolves _ rfl
      · exact admitPayload_evolves _ rfl
      · exact otherRangeIterator_evolves _
      · exact admitPayload_evolves _ rfl
  · exact .fail _

/-- Settling a boxed iterator, where its source may be leased. -/
lemma settleBoxed_evolves (iter source : Handle) (extra charge : Nat) (readers : Option Nat)
    (hlease : ∀ t : Store, R t (t.modify source.slot fun e =>
      { e with readers := readers.getD e.readers })) :
    Within R (settleBoxed iter source extra charge readers) := by
  unfold settleBoxed
  apply Within.bind .get
  intro s
  apply Within.bind (.ofExcept _)
  intro bytes
  apply Within.bind (.read _)
  intro _
  apply Within.bind (.read _)
  intro _
  apply Within.update
  intro t
  have hcharged : R t (t.modify iter.slot fun e => { e with chargedBytes := charge }) :=
    Rewrites.modify t _ fun _ => .inl ⟨rfl, Nat.le_refl _⟩
  have hleased := trans_of R hcharged (hlease (t.modify iter.slot fun e =>
    { e with chargedBytes := charge }))
  refine trans_of R hleased ?_
  exact Quiet.quiet rfl rfl

lemma pipelineAdmit_evolves {h : Handle} (kind : BoxedKind) (extra : Nat) (lease : Bool)
    (hlease : ∀ (t : Store) (n : Nat), lease = true →
      R t (t.modify h.slot fun e => { e with readers := n })) :
    Within R (pipelineAdmit (.heap h) kind extra lease) := by
  unfold pipelineAdmit
  apply Within.bind_read
  intro s readers hreaders
  apply Within.bind (.ofExcept _)
  intro charge
  apply Within.bind (ensureRoom_evolves _)
  intro _
  apply Within.bind (alloc_evolves _)
  intro _
  apply Within.bind (admitPayload_evolves _ rfl)
  intro w
  split
  · refine .bind (settleBoxed_evolves _ _ _ _ _ fun t => ?_) fun _ => .pure _
    cases readers with
    | none => exact Rewrites.modify t _ fun _ => .inl ⟨rfl, Nat.le_refl _⟩
    | some n =>
        apply hlease t n
        split_ifs at hreaders with hl
        · exact hl
        · cases hreaders
  · exact .fail _

lemma pipelineAdapter_evolves (source n : Value) (take : Bool) :
    Within R (pipelineAdapter source n take) := by
  unfold pipelineAdapter
  apply Within.bind (.read _)
  intro n
  split
  · apply Within.bind (.read _)
    intro p
    apply Within.bind (.guardWith _ _)
    intro _
    refine .bind (alloc_evolves _) fun _ => pipelineAdmit_evolves _ _ _ ?_
    intro _ _ h
    cases h
  · exact .fail _

lemma pipelineChild_evolves (v : Value) : Within R (pipelineChild v) := by
  unfold pipelineChild
  have hsource : ∀ source : Option Handle, Within R (do
      let h ← ofExcept (okOr source (err .invalidCode))
      retain (.heap h)
      pure (.heap h) : M Value) := by
    intro source
    apply Within.bind (.ofExcept _)
    intro h
    exact .bind (retain_evolves _) fun _ => .pure _
  split
  · apply Within.bind (.read _)
    intro p
    split
    · exact hsource _
    · exact hsource _
    · exact .fail _
  · exact .fail _

lemma textSplit_evolves {h : Handle} (delimiter : Value)
    (hlease : ∀ (t : Store) (n : Nat), R t (t.modify h.slot fun e => { e with readers := n })) :
    Within R (textSplit (.heap h) delimiter) := by
  unfold textSplit
  apply Within.bind (.read _)
  intro readers
  dsimp only
  split
  on_goal 1 => refine Within.bind (.pure _) ?_
  on_goal 2 => refine Within.bind (.read _) fun _ => .bind (.pure _) ?_
  -- Both kinds of delimiter go on alike.
  all_goals
    intro needle
    apply Within.bind (ensureRoom_evolves _)
    intro _
    apply Within.bind (alloc_evolves _)
    intro _
    apply Within.bind (alloc_evolves _)
    intro _
    apply Within.bind (.ofExcept _)
    intro extra
    apply Within.bind (.ofExcept _)
    intro charge
    apply Within.bind (ensureRoom_evolves _)
    intro _
    apply Within.bind (alloc_evolves _)
    intro _
    apply Within.bind (admitPayload_evolves _ rfl)
    intro w
    split
    · exact .bind (settleBoxed_evolves _ _ _ _ _ fun t => hlease t _) fun _ => .pure _
    · exact .fail _

lemma endSplit_evolves (source : Handle) : Within R (endSplit source) := by
  unfold endSplit
  apply Within.bind .get
  intro s
  apply Within.bind (.ofExcept _)
  intro edges
  apply Within.bind (setEdges_evolves _)
  intro _
  apply Within.bind (.read _)
  intro e
  apply Within.bind (.guardWith _ _)
  intro _
  exact .bind (touch_evolves _ fun _ => ⟨rfl, Nat.sub_le _ _⟩) fun _ => release_evolves _

lemma splitNext_evolves (h : Handle) : Within R (splitNext h) := by
  unfold splitNext
  apply Within.bind (.read _)
  intro p
  split
  · apply Within.bind (.read _)
    intro text
    apply Within.bind (.ofExcept _)
    intro step
    apply Within.bind (.ofExcept _)
    intro piece
    apply Within.bind (ensureRoom_evolves _)
    intro _
    apply Within.bind (alloc_evolves _)
    intro _
    apply Within.bind (stringOwned_evolves _)
    intro result
    apply Within.bind (.read _)
    intro q
    split
    · apply Within.bind (setPayload_evolves _ _ rfl)
      intro _
      split
      · apply Within.ite
        · exact .bind (endSplit_evolves _) fun _ => .pure _
        · exact .pure _
      · exact .pure _
    · exact .fail _
  · exact .pure _
  · exact .fail _

lemma charsNext_evolves (h : Handle) : Within R (charsNext h) := by
  unfold charsNext
  apply Within.bind (.read _)
  intro p
  split
  · apply Within.bind (.ofExcept _)
    intro source
    apply Within.bind (.read _)
    intro text
    apply Within.bind (.ofExcept _)
    intro tail
    split
    · exact .pure _
    · apply Within.bind (.read _)
      intro q
      split
      · apply Within.bind (.ofExcept _)
        intro offset
        exact .bind (setPayload_evolves _ _ rfl) fun _ => .pure _
      · exact .fail _
  · exact .fail _

lemma otherRangeNext_evolves (h : Handle) : Within R (otherRangeNext h) := by
  unfold otherRangeNext
  apply Within.bind (.read _)
  intro p
  split
  · exact charsNext_evolves h
  · exact splitNext_evolves h
  · apply Within.bind (.read _)
    intro q
    split
    · apply Within.bind (.ofExcept _)
      intro r
      exact .bind (setPayload_evolves _ _ rfl) fun _ => .pure _
    · exact .fail _

lemma valueRangeNext_evolves (h : Handle) (next finish : Value) :
    Within R (valueRangeNext h next finish) := by
  unfold valueRangeNext
  apply Within.bind (.ofExcept _)
  intro r
  cases r with
  | none => exact .pure _
  | some advanced =>
      apply Within.bind (.read _)
      intro q
      split
      · exact .bind (setPayload_evolves _ _ rfl) fun _ => .pure _
      · exact .fail _

lemma objectPair_evolves (key : List Char) (child : Value) : Within R (objectPair key child) := by
  unfold objectPair
  apply Within.bind (ensureRoom_evolves _)
  intro _
  apply Within.bind (alloc_evolves _)
  intro _
  apply Within.bind (admitPayload_evolves _ rfl)
  intro k
  apply Within.bind (.attempt (list_evolves _ _))
  intro pair
  apply Within.bind (.attempt (release_evolves _))
  intro released
  split
  · exact .pure _
  · exact .bind (.attempt (release_evolves _)) fun _ => .fail _
  · exact .fail _
  · exact .fail _

lemma iterElement_evolves (source : Handle) (index : Nat) :
    Within R (iterElement source index) := by
  unfold iterElement
  apply Within.bind (.read _)
  intro p
  split
  · split
    · exact objectPair_evolves _ _
    · exact .fail _
  · exact getElement_evolves _ _

lemma optionNext_evolves (h : Handle) : Within R (optionNext h) := by
  unfold optionNext
  apply Within.bind (.read _)
  intro p
  split
  · apply Within.bind (setPayload_evolves _ _ rfl)
    intro _
    apply Within.bind .get
    intro s
    apply Within.bind (.ofExcept _)
    intro edges
    exact .bind (setEdges_evolves _) fun _ => .pure _
  · exact .fail _

lemma iteratorNext_evolves (v : Value) : Within R (iteratorNext v) := by
  unfold iteratorNext
  split
  · apply Within.bind (.read _)
    intro p
    split
    · apply Within.ite (.pure _)
      apply Within.bind (.ofExcept _)
      intro new
      exact .bind (setPayload_evolves _ _ rfl) fun _ => .pure _
    · apply Within.bind (.read _)
      intro source
      apply Within.bind (.ofExcept _)
      intro length
      apply Within.ite (.pure _)
      apply Within.bind (iterElement_evolves _ _)
      intro value
      apply Within.bind (.read _)
      intro q
      split
      · exact .bind (setPayload_evolves _ _ rfl) fun _ => .pure _
      · exact .fail _
    · exact otherRangeNext_evolves _
    · exact valueRangeNext_evolves _ _ _
    · exact optionNext_evolves _
    · exact .fail _
  · exact .fail _

/-! ## Leases on texts -/

/-- What is related to `s` stays related to it. -/
def After (R : Store → Store → Prop) (s t u : Store) : Prop := R s t → R s u

instance (s : Store) : Evolves (After R s) where
  refl _ h := h
  trans _ _ _ h h' hs := h' (h hs)
  quiet hslots hfree hs := trans_of R hs (Quiet.quiet hslots hfree)
  modify t i _ hf hs := trans_of R hs (Rewrites.modify t i hf)
  admits p hp := (admitPayload_evolves p hp).mono fun _ _ h hs => trans_of R hs h
  retire hh hs := trans_of R hs (Evolves.retire hh)

end

/-- A relation that also allows leasing a string: no step makes a guard of it before. -/
class LeasesText (R : Store → Store → Prop) : Prop extends Evolves R where
  lease : ∀ {s t : Store} {h : Handle} {e : Entry} (n : Nat), s.at? h = some e →
    e.payload.tag = .string → R s t → R s (t.modify h.slot fun e => { e with readers := n })

/-- Only an entry is a string. -/
lemma tag_eq_string {v : Value} (h : s.tag v = .ok .string) :
    ∃ k e, v = .heap k ∧ s.at? k = some e ∧ e.payload.tag = .string := by
  cases v with
  | heap k =>
      dsimp only [tag] at h
      rcases he : s.entry k with x | e
      · rw [he] at h
        cases h
      · rw [he] at h
        exact ⟨k, e, rfl, (entry_eq_ok.1 he).2, Except.ok.inj h⟩
  | _ => cases h

/-- A computation may lease its receiver once it is known to be a string. -/
lemma lease_evolves [LeasesText R] {v : Value} {m e : M Value}
    (hm : ∀ (Q : Store → Store → Prop) [Evolves Q] (h : Handle), v = .heap h →
      (∀ (t : Store) (n : Nat), Q t (t.modify h.slot fun e => { e with readers := n })) →
      Within Q m) (he : Within R e) :
    Within R (do
      let tag ← read (·.tag v)
      if tag = .string then m else e) := by
  apply Within.of_wp
  intro s
  have hself : R s s := refl_of R s
  refine wp_read_bind (fun _ _ => hself) fun tag htag => wp_ite (fun hstring => ?_) fun _ => he.wp s
  subst hstring
  obtain ⟨h, x, rfl, hx, hstring⟩ := tag_eq_string htag
  have hwithin : Within (After R s) m := hm _ h rfl fun t n hst => LeasesText.lease n hx hstring hst
  exact wp_mono (hwithin.wp s) (fun _ _ h => h hself) fun _ _ h => h hself

lemma pipelineChars_evolves [LeasesText R] (source : Value) : Within R (pipelineChars source) := by
  refine lease_evolves ?_ (.bind (.read _) fun _ => .fail _)
  intro Q _ h hv hlease
  subst hv
  apply Within.bind (.read _)
  intro _
  exact .bind (alloc_evolves _) fun _ => pipelineAdmit_evolves _ _ _ fun t n _ => hlease t n

lemma textMethodSplit_evolves [LeasesText R] (receiver delimiter : Value) :
    Within R (textMethodSplit receiver delimiter) := by
  refine lease_evolves ?_ (.bind (.read _) fun _ => .fail _)
  intro Q _ h hv hlease
  subst hv
  apply Within.bind (.read _)
  intro _
  exact .bind (.read _) fun _ => textSplit_evolves delimiter hlease

/-! ## Calls -/

lemma returning_evolves [Quiet R] {m : M Value} (h : Within R m) : Within R (returning m) := by
  unfold returning
  exact .bind h fun _ => .pure _

lemma performing_evolves [Quiet R] {m : M Unit} (h : Within R m) : Within R (performing m) := by
  unfold performing
  exact .bind h fun _ => .pure _

/-- The calls that write the guard of a sort. -/
def Call.sorts : Call → Bool
  | .sortBegin .. | .sortStore .. | .sortCommit .. => true
  | _ => false

/-- Every other call stays within the relation. -/
lemma Call.run_evolves [LeasesText R] (c : Call) (hc : c.sorts = false) : Within R c.run := by
  cases c with
  | string text => exact returning_evolves (string_evolves _)
  | stringFrom v => exact returning_evolves (stringFrom_evolves _)
  | list tag values => exact returning_evolves (list_evolves _ _)
  | closure code function env => exact returning_evolves (closure_evolves _ _ _)
  | record tag fields => exact returning_evolves (record_evolves _ _)
  | variant tag success payload => exact returning_evolves (variant_evolves _ _ _)
  | range start finish => exact returning_evolves (admitPayload_evolves _ rfl)
  | rangeValues start finish =>
      exact returning_evolves (admitPayload_evolves _ (not_guard_canonicalRange _ _))
  | otherRange tag args => exact returning_evolves (otherRange_evolves _ _)
  | vecWithCapacity capacity => exact returning_evolves (vecWithCapacity_evolves _)
  | concatString a b => exact returning_evolves (concatString_evolves _ _)
  | iterator v => exact returning_evolves (iterator_evolves _)
  | textSplit v delimiter => exact returning_evolves (textMethodSplit_evolves _ _)
  | pipelineChars v => exact returning_evolves (pipelineChars_evolves _)
  | pipelineAdapter v n take => exact returning_evolves (pipelineAdapter_evolves _ _ _)
  | pipelineChild v => exact returning_evolves (pipelineChild_evolves _)
  | retain v => exact returning_evolves (.bind (retain_evolves _) fun _ => .pure _)
  | release v => exact performing_evolves (release_evolves _)
  | set v index new => exact performing_evolves (set_evolves _ _ _)
  | push v new => exact performing_evolves (push_evolves _ _)
  | setKey v key new => exact performing_evolves (setKey_evolves _ _ _)
  | fieldSetMut v key new => exact performing_evolves (fieldSetMut_evolves _ _ _)
  | tupleSet v index new => exact performing_evolves (tupleSet_evolves _ _ _)
  | tupleSetMut v index new => exact performing_evolves (tupleSetMut_evolves _ _ _)
  | setRangeField h key new => exact performing_evolves (setRangeField_evolves _ _ _)
  | setOtherRangeField h key new => exact performing_evolves (setOtherRangeField_evolves _ _ _)
  | objectMethod method receiver key new => exact returning_evolves (objectMethod_evolves _ _ _ _)
  | appendString target rhs => exact performing_evolves (appendString_evolves _ _)
  | takeCapture v => exact returning_evolves (takeCapture_evolves _)
  | cloneValue v => exact returning_evolves (cloneValue_evolves _)
  | sortBegin => cases hc
  | sortStore => cases hc
  | sortValue guard index => exact returning_evolves (sortValue_evolves _ _)
  | sortCommit => cases hc
  | vecResize receiver length fill => exact performing_evolves (vecResize_evolves _ _ _)
  | iteratorNext v => exact iteratorNext_evolves _
  | invalidate v => exact performing_evolves (invalidate_evolves _)

end Store

end Rnx
