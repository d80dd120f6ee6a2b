import Rnx.Code.Validate
import Rnx.Exec.Activation

/-!
# Compound updates

What `validate_tuple_updates` is there for: an update in place, `t.0 += x` or `o.a += x`, is a read,
an `AssignBinary` and a write, and nothing leads into their middle.  So whenever an activation
stands at the write, its last steps were the read of the same place and the operation on what was
read, and the value it writes is their result.
-/

namespace Rnx

namespace Function

variable {f : Function} {pc : Nat} {op : Op}

lemma operation_lt (h : f.operation pc = .ok op) : pc < f.code.length := by
  obtain ⟨i, hi, -⟩ := Except.bind_eq_ok.1 h
  exact (List.getElem?_eq_some_iff.1 (okOr_eq_ok.1 hi)).1

/-- Each instruction of a validated function passes. -/
lemma validateUpdate_at (h : f.validateTupleUpdates = .ok ()) (hop : f.operation pc = .ok op) :
    f.validateUpdate pc = .ok () :=
  Except.forM_eq_ok.1 h pc (List.mem_range.2 (operation_lt hop))

/-- The update of a tuple's element, from the literal of its index on. -/
structure ElementUpdate (f : Function) (pc value index new : Nat) (op : Binary)
    (rhs readIndex : Nat)
    (n : I64) : Prop where
  literal : f.operation pc = .ok (.literal readIndex (.i64 n))
  read : f.operation (pc + 1) = .ok (.tupleFieldGetMut new value readIndex)
  compute : f.operation (pc + 2) = .ok (.assignBinary new op new rhs)
  again : f.operation (pc + 3) = .ok (.literal index (.i64 n))
  write : f.operation (pc + 4) = .ok (.tupleFieldSetMut value index new)
  nonneg : 0 ≤ n.val
  new_ne : new ≠ value
  index_ne : index ≠ value ∧ index ≠ new

/-- The update of a field, from its read on. -/
structure FieldUpdate (f : Function) (pc value key new : Nat) (op : Binary) (rhs readKey : Nat) :
    Prop where
  read : f.operation pc = .ok (.fieldGetMut new value readKey)
  compute : f.operation (pc + 1) = .ok (.assignBinary new op new rhs)
  write : f.operation (pc + 2) = .ok (.fieldSetMut value key new)
  key_eq : f.strings[key]? = f.strings[readKey]?
  new_ne : new ≠ value ∧ new ≠ rhs

/-- What is done with a known operation. -/
lemma operation_bind {α : Type} {k : Op → Except Error α} {x : α} (hop : f.operation pc = .ok op)
    (h : (f.operation pc >>= k) = .ok x) : k op = .ok x := by
  obtain ⟨op', hop', h⟩ := Except.bind_eq_ok.1 h
  obtain rfl := Except.ok.inj (hop.symm.trans hop')
  exact h

/-- The shape of an update whose read is at the pc. -/
lemma tupleUpdate_eq {out value index : Nat} (h : f.tupleUpdate pc out value index = .ok ())
    (hop : f.operation pc = .ok (.tupleFieldGetMut out value index)) :
    ∃ q op rhs writeIndex n, pc = q + 1 ∧ f.ElementUpdate q value writeIndex out op rhs index n := by
  obtain ⟨_, hne, h⟩ := Except.bind_eq_ok.1 h
  obtain ⟨hpc, hvalue, hindex⟩ := ensure_eq_ok.1 hne
  obtain ⟨q, rfl⟩ := Nat.exists_eq_succ_of_ne_zero hpc
  obtain ⟨first, hfirst, h⟩ := Except.bind_eq_ok.1 h
  split at h
  · rename_i readIndex readLiteral
    obtain ⟨second, hsecond, h⟩ := Except.bind_eq_ok.1 h
    split at h
    · rename_i result op lhs rhs
      obtain ⟨third, hthird, h⟩ := Except.bind_eq_ok.1 h
      split at h
      · rename_i writeIndex writeLiteral
        obtain ⟨fourth, hfourth, h⟩ := Except.bind_eq_ok.1 h
        split at h
        · obtain ⟨rfl, rfl, hnonneg, rfl, rfl, -, rfl, rfl, rfl, hwrite, hwrite', -⟩ :=
            ensure_eq_ok.1 h
          cases readLiteral with
          | i64 n =>
            exact ⟨q, op, rhs, _, n, rfl, hfirst, hop, hsecond, hthird, hfourth,
              of_decide_eq_true hnonneg, hvalue, hwrite, hwrite'⟩
          | unit | bool | u64 | f64 | char | ordering | heap | function | type => cases hnonneg
        · cases h
      · cases h
    · cases h
  · cases h

/-- A write of a tuple's element ends an update. -/
lemma elementUpdate_of_write {value index new : Nat} (h : f.validateTupleUpdates = .ok ())
    (hop : f.operation pc = .ok (.tupleFieldSetMut value index new)) :
    ∃ q op rhs readIndex n, pc = q + 4 ∧ f.ElementUpdate q value index new op rhs readIndex n := by
  have hset := operation_bind hop (validateUpdate_at h hop)
  dsimp only at hset
  split_ifs at hset with hpc
  obtain ⟨back, hback, hset⟩ := Except.bind_eq_ok.1 hset
  split at hset
  · rename_i out target readIndex
    obtain ⟨q, op, rhs, writeIndex, n, hq, hupdate⟩ :=
      tupleUpdate_eq (operation_bind hback (validateUpdate_at h hback)) hback
    obtain rfl : pc = q + 4 := by omega
    obtain ⟨rfl, rfl, rfl⟩ := Op.tupleFieldSetMut.inj (Except.ok.inj (hop.symm.trans hupdate.write))
    exact ⟨q, op, rhs, readIndex, n, rfl, hupdate⟩
  · cases hset

/-- A write of a field ends an update. -/
lemma fieldUpdate_of_write {value key new : Nat} (h : f.validateTupleUpdates = .ok ())
    (hop : f.operation pc = .ok (.fieldSetMut value key new)) :
    ∃ q op rhs readKey, pc = q + 2 ∧ f.FieldUpdate q value key new op rhs readKey := by
  have hset := operation_bind hop (validateUpdate_at h hop)
  dsimp only at hset
  split_ifs at hset with hpc
  obtain ⟨back, hback, hset⟩ := Except.bind_eq_ok.1 hset
  split at hset
  · rename_i out target readKey
    have hget := operation_bind hback (validateUpdate_at h hback)
    obtain ⟨second, hsecond, hget⟩ := Except.bind_eq_ok.1 hget
    split at hget
    · rename_i result op lhs rhs
      obtain ⟨third, hthird, hget⟩ := Except.bind_eq_ok.1 hget
      split at hget
      · obtain ⟨q, rfl⟩ : ∃ q, pc = q + 2 := ⟨pc - 2, by omega⟩
        obtain ⟨rfl, rfl, rfl⟩ := Op.fieldSetMut.inj (Except.ok.inj (hop.symm.trans hthird))
        obtain ⟨hvalue, hrhs, -, rfl, rfl, rfl, hkey, rfl⟩ := ensure_eq_ok.1 hget
        exact ⟨q, op, rhs, readKey, rfl, hback, hsecond, hthird, hkey, hvalue, hrhs⟩
      · cases hget
    · cases hget
  · cases hset

/-! ## The interior -/

/-- No arc but that from the instruction before leads to the interior of an update. -/
lemma target_interior {q : Nat} (h : f.validateTupleUpdates = .ok ()) (hop : f.operation pc = .ok op)
    (hq : q ∈ op.targets pc) (hin : f.interior q = .ok true) : q = pc + 1 := by
  have hout : f.outside q ≠ .ok () := fun hout => by
    obtain ⟨inside, hinside, hout⟩ := Except.bind_eq_ok.1 hout
    obtain rfl := Except.ok.inj (hin.symm.trans hinside)
    exact Bool.noConfusion (ensure_eq_ok.1 hout)
  have hset := operation_bind hop (validateUpdate_at h hop)
  cases op with
  | jump target =>
    obtain rfl := List.mem_singleton.1 hq
    exact absurd hset hout
  | branch condition yes no =>
    obtain ⟨_, hyes, hno⟩ := Except.bind_eq_ok.1 hset
    rcases List.mem_cons.1 hq with rfl | hq
    · exact absurd hyes hout
    · obtain rfl := List.mem_singleton.1 hq
      exact absurd hno hout
  | iterNext out iterator done =>
    rcases List.mem_cons.1 hq with rfl | hq
    · rfl
    · obtain rfl := List.mem_singleton.1 hq
      exact absurd hset hout
  | returnValue | panic => exact absurd hq List.not_mem_nil
  | _ => exact List.mem_singleton.1 hq

/-- An operation that is always in the interior, or is with the one before it. -/
lemma interior_eq {k : Op → Except Error Bool} (hop : f.operation pc = .ok op)
    (h : f.interior pc = (f.operation pc >>= k)) : f.interior pc = k op := by
  rw [h, hop]
  rfl

lemma ElementUpdate.interior {value index new rhs readIndex : Nat} {bin : Binary} {n : I64}
    (h : f.ElementUpdate pc value index new bin rhs readIndex n) :
    f.interior (pc + 1) = .ok true ∧ f.interior (pc + 2) = .ok true ∧
      f.interior (pc + 3) = .ok true ∧ f.interior (pc + 4) = .ok true := by
  refine ⟨interior_eq h.read rfl, ?_, ?_, interior_eq h.write rfl⟩
  · refine (interior_eq h.compute rfl).trans ?_
    dsimp only
    rw [if_pos (by omega), show pc + 2 - 1 = pc + 1 from rfl, h.read]
    rfl
  · refine (interior_eq h.again rfl).trans ?_
    dsimp only
    rw [if_pos (by omega), show pc + 3 - 2 = pc + 1 from rfl, h.read]
    rfl

lemma FieldUpdate.interior {value key new rhs readKey : Nat} {bin : Binary}
    (h : f.FieldUpdate pc value key new bin rhs readKey) :
    f.interior (pc + 1) = .ok true ∧ f.interior (pc + 2) = .ok true := by
  refine ⟨(interior_eq h.compute rfl).trans ?_, interior_eq h.write rfl⟩
  dsimp only
  rw [if_pos (by omega), show pc + 1 - 1 = pc from rfl, h.read]
  rfl

end Function

namespace Exec

variable {F : FloatOps} {C : CastOps} {f : Function} {a b : Activation} {l : History} {op : Op}

/-- Where only the instruction before leads, that instruction was the last step. -/
lemma Trace.fell {q : Nat} (hf : f.prepareCache = .ok f) (hv : f.validateTupleUpdates = .ok ())
    (h : Trace F C f l a) (hpc : a.pc = q + 1) (hin : f.interior (q + 1) = .ok true)
    (hop : f.operation q = .ok op) :
    ∃ past reply b effect, l = past ++ [(reply, b)] ∧ Trace F C f past b ∧ b.pc = q ∧
      b.effect F C reply op = some effect ∧ b.apply effect = some a := by
  cases h with
  | entry start =>
    rw [Activation.enter_pc start] at hpc
    exact absurd hpc (Nat.succ_ne_zero q).symm
  | @step past b _ reply before step =>
    obtain ⟨op', effect, hop', heffect, happly⟩ := Activation.step_operation hf step
    have htarget := Activation.effect_targets heffect
    rw [← Activation.apply_pc happly, hpc] at htarget
    have hb : b.pc = q := (Nat.succ.inj (Function.target_interior hv hop' htarget hin)).symm
    rw [hb] at hop'
    obtain rfl := Except.ok.inj (hop.symm.trans hop')
    exact ⟨past, reply, b, effect, rfl, before, hb, heffect, happly⟩

/-- The element behind the write at an activation was read in the same place, computed with, and is
written back: the last steps, with the activations they found, and the slots that changed. -/
def UpdatesElement (f : Function) (l : History) (b : Activation) (value index new : Nat) : Prop :=
  ∃ (past : History) (first third fourth : Reply) (b₁ b₂ b₃ b₄ : Activation) (old result : Value)
    (n : I64) (op : Binary) (rhs readIndex : Nat),
    l = past ++ [(first, b₁), (.value old, b₂), (third, b₃), (fourth, b₄)] ∧
    f.operation b₂.pc = .ok (.tupleFieldGetMut new value readIndex) ∧
    f.operation b₃.pc = .ok (.assignBinary new op new rhs) ∧
    (0 ≤ n.val ∧ b₂.slots[readIndex]? = some (.i64 n) ∧ b.slots[index]? = some (.i64 n)) ∧
    b.slots[value]? = b₂.slots[value]? ∧ b₃.slots[new]? = some old ∧
    b₃.operated op new rhs third = some result ∧ b.slots[new]? = some result ∧
    b.slots = (b₂.slots.set new result).set index (.i64 n)

/-- The same for a field, under the text of its key. -/
def UpdatesField (f : Function) (l : History) (b : Activation) (value key new : Nat) : Prop :=
  ∃ (past : History) (second : Reply) (b₁ b₂ : Activation) (old result : Value) (op : Binary)
    (rhs readKey : Nat),
    l = past ++ [(.value old, b₁), (second, b₂)] ∧
    f.operation b₁.pc = .ok (.fieldGetMut new value readKey) ∧
    f.strings[readKey]? = f.strings[key]? ∧
    f.operation b₂.pc = .ok (.assignBinary new op new rhs) ∧
    b.slots[value]? = b₁.slots[value]? ∧ b₂.slots[new]? = some old ∧
    b₂.slots[rhs]? = b₁.slots[rhs]? ∧
    b₂.operated op new rhs second = some result ∧ b.slots[new]? = some result ∧
    b.slots = b₁.slots.set new result

lemma Trace.updatesElement {value index new : Nat} (hf : f.prepareCache = .ok f)
    (hv : f.validateTupleUpdates = .ok ()) (h : Trace F C f l b)
    (hop : f.operation b.pc = .ok (.tupleFieldSetMut value index new)) :
    UpdatesElement f l b value index new := by
  obtain ⟨q, op, rhs, readIndex, n, hpc, hupdate⟩ := Function.elementUpdate_of_write hv hop
  obtain ⟨hin₁, hin₂, hin₃, hin₄⟩ := hupdate.interior
  obtain ⟨past₄, fourth, b₄, _, rfl, h₄, hpc₄, heffect₄, happly₄⟩ :=
    h.fell hf hv hpc hin₄ hupdate.again
  obtain ⟨past₃, third, b₃, _, rfl, h₃, hpc₃, heffect₃, happly₃⟩ :=
    h₄.fell hf hv hpc₄ hin₃ hupdate.compute
  obtain ⟨past₂, second, b₂, _, rfl, h₂, hpc₂, heffect₂, happly₂⟩ :=
    h₃.fell hf hv hpc₃ hin₂ hupdate.read
  obtain ⟨past, first, b₁, _, rfl, h₁, hpc₁, heffect₁, happly₁⟩ :=
    h₂.fell hf hv hpc₂ hin₁ hupdate.literal
  obtain rfl := Option.some.inj heffect₄
  obtain ⟨result, hresult, rfl⟩ := Option.map_eq_some_iff.1 heffect₃
  obtain ⟨old, hold, rfl⟩ := Option.map_eq_some_iff.1 heffect₂
  obtain rfl := Option.some.inj heffect₁
  obtain ⟨rfl, -⟩ := Activation.handed_value hold
  obtain ⟨hlt₁, hslots₁⟩ := Activation.apply_write happly₁
  obtain ⟨hlt₂, hslots₂⟩ := Activation.apply_write happly₂
  obtain ⟨hlt₃, hslots₃⟩ := Activation.apply_write happly₃
  obtain ⟨hlt₄, hslots₄⟩ := Activation.apply_write happly₄
  obtain ⟨hindex, hindex'⟩ := hupdate.index_ne
  have hslots : b.slots = (b₂.slots.set new result).set index (.i64 n) := by
    rw [hslots₄, hslots₃, hslots₂, List.set_set]
  refine ⟨past, first, third, fourth, b₁, b₂, b₃, b₄, old, result, n, op, rhs, readIndex, ?_, ?_, ?_,
    ⟨hupdate.nonneg, ?_, ?_⟩, ?_, ?_, hresult, ?_, hslots⟩
  · simp
  · rw [hpc₂]
    exact hupdate.read
  · rw [hpc₃]
    exact hupdate.compute
  · rw [hslots₁, List.getElem?_set_self hlt₁]
  · rw [hslots₄, List.getElem?_set_self hlt₄]
  · rw [hslots, List.getElem?_set_ne hindex, List.getElem?_set_ne hupdate.new_ne]
  · rw [hslots₂, List.getElem?_set_self hlt₂]
  · rw [hslots₄, List.getElem?_set_ne hindex', hslots₃, List.getElem?_set_self hlt₃]

lemma Trace.updatesField {value key new : Nat} (hf : f.prepareCache = .ok f)
    (hv : f.validateTupleUpdates = .ok ()) (h : Trace F C f l b)
    (hop : f.operation b.pc = .ok (.fieldSetMut value key new)) :
    UpdatesField f l b value key new := by
  obtain ⟨q, op, rhs, readKey, hpc, hupdate⟩ := Function.fieldUpdate_of_write hv hop
  obtain ⟨hin₁, hin₂⟩ := hupdate.interior
  obtain ⟨past₂, second, b₂, _, rfl, h₂, hpc₂, heffect₂, happly₂⟩ :=
    h.fell hf hv hpc hin₂ hupdate.compute
  obtain ⟨past, first, b₁, _, rfl, h₁, hpc₁, heffect₁, happly₁⟩ :=
    h₂.fell hf hv hpc₂ hin₁ hupdate.read
  obtain ⟨result, hresult, rfl⟩ := Option.map_eq_some_iff.1 heffect₂
  obtain ⟨old, hold, rfl⟩ := Option.map_eq_some_iff.1 heffect₁
  obtain ⟨rfl, -⟩ := Activation.handed_value hold
  obtain ⟨hlt₁, hslots₁⟩ := Activation.apply_write happly₁
  obtain ⟨hlt₂, hslots₂⟩ := Activation.apply_write happly₂
  obtain ⟨hvalue, hrhs⟩ := hupdate.new_ne
  have hslots : b.slots = b₁.slots.set new result := by
    rw [hslots₂, hslots₁, List.set_set]
  refine ⟨past, second, b₁, b₂, old, result, op, rhs, readKey, ?_, ?_, hupdate.key_eq.symm, ?_, ?_,
    ?_, ?_, hresult, ?_, hslots⟩
  · simp
  · rw [hpc₁]
    exact hupdate.read
  · rw [hpc₂]
    exact hupdate.compute
  · rw [hslots, List.getElem?_set_ne hvalue]
  · rw [hslots₁, List.getElem?_set_self hlt₁]
  · rw [hslots₁, List.getElem?_set_ne hrhs]
  · rw [hslots₂, List.getElem?_set_self hlt₂]

/-- **Compound updates**: wherever an activation of a validated function stands at the write of an
update in place, its last steps read the same place and computed what it writes. -/
theorem compound_updates (F : FloatOps) (C : CastOps) (f : Function) (hf : f.prepareCache = .ok f)
    (hv : f.validateTupleUpdates = .ok ()) (a b : Activation) (l : History)
    (hstart : (activations F C f).start a) (hrun : (activations F C f).Run a l b) :
    (∀ value index new, f.operation b.pc = .ok (.tupleFieldSetMut value index new) →
      UpdatesElement f l b value index new) ∧
      ∀ value key new, f.operation b.pc = .ok (.fieldSetMut value key new) →
        UpdatesField f l b value key new :=
  ⟨fun _ _ _ hop => (Trace.of_run hstart hrun).updatesElement hf hv hop,
    fun _ _ _ hop => (Trace.of_run hstart hrun).updatesField hf hv hop⟩

/-- `t.0 += x` for its two parameters. -/
def addFirst : Function where
  cached := [⟨.literal 2 (.i64 (.ofWord 0)), true⟩, ⟨.tupleFieldGetMut 3 0 2, false⟩,
    ⟨.assignBinary 3 .add 3 1, false⟩, ⟨.literal 2 (.i64 (.ofWord 0)), false⟩,
    ⟨.tupleFieldSetMut 0 2 3, false⟩, ⟨.returnValue 1, false⟩]
  constants := [.i64 (.ofWord 0)]
  types := []
  ranges := []
  strings := []
  code := [⟨0, true, 2, 0, 0⟩, ⟨36, false, 3, 0, 2⟩, ⟨200, false, 3, 3, 1⟩, ⟨0, false, 2, 0, 0⟩,
    ⟨37, false, 0, 2, 3⟩, ⟨13, false, 1, 0, 0⟩]
  args := []
  slots := 4
  parameters := 2

/-- The element that is read before `t.0 += 2` is written. -/
theorem compound_updates_addFirst :
    UpdatesElement addFirst
      [(.none, ⟨0, [.heap ⟨3, 1⟩, .i64 (.ofWord 2), .unit, .unit]⟩),
        (.value (.i64 (.ofWord 5)), ⟨1, [.heap ⟨3, 1⟩, .i64 (.ofWord 2), .i64 (.ofWord 0), .unit]⟩),
        (.none, ⟨2, [.heap ⟨3, 1⟩, .i64 (.ofWord 2), .i64 (.ofWord 0), .i64 (.ofWord 5)]⟩),
        (.none, ⟨3, [.heap ⟨3, 1⟩, .i64 (.ofWord 2), .i64 (.ofWord 0), .i64 (.ofWord 7)]⟩)]
      ⟨4, [.heap ⟨3, 1⟩, .i64 (.ofWord 2), .i64 (.ofWord 0), .i64 (.ofWord 7)]⟩ 0 2 3 :=
  (compound_updates ⟨fun a _ => a, fun a _ => a, fun a _ => a, fun a _ => a, fun a _ => a, id⟩
    ⟨fun _ => ⟨0⟩, fun _ => ⟨0⟩, fun _ => .ofWord 0, fun _ => asU64 (.ofWord 0)⟩ addFirst rfl rfl
    ⟨0, [.heap ⟨3, 1⟩, .i64 (.ofWord 2), .unit, .unit]⟩ _ _ ⟨[.heap ⟨3, 1⟩, .i64 (.ofWord 2)], rfl⟩
    (.cons rfl (.cons rfl (.cons rfl (.cons rfl (.nil _)))))).1 0 2 3 rfl

end Exec

end Rnx
