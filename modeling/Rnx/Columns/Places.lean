import Rnx.Columns.Lanes
import Rnx.Lib.Recycle

/-!
# The places of a plan

The interval allocation gives every computed node a place that no later node takes before the
last use of the node (`allocate_sound`).  A slot is live while uses of its node are left; a live
slot is neither on the free list nor the slot of a later node, and the uses left cover the
operands of the nodes still to come.
-/

namespace Rnx.Columns

/-! ## Uses -/

/-- How often the nodes read node `a`. -/
def need (nodes : List Node) (a : Nat) : Nat := (nodes.map fun n => n.step.deps.count a).sum

@[simp] lemma need_nil (a : Nat) : need [] a = 0 := rfl

@[simp] lemma need_cons (n : Node) (nodes : List Node) (a : Nat) :
    need (n :: nodes) a = n.step.deps.count a + need nodes a := by simp [need]

/-- A number at a position, zero beyond the end. -/
def useOf (uses : List Nat) (a : Nat) : Nat := uses.getD a 0

lemma useOf_modify (uses : List Nat) (i a : Nat) (f : Nat → Nat) :
    useOf (uses.modify i f) a = if i = a ∧ a < uses.length then f (useOf uses a) else useOf uses a := by
  unfold useOf
  rw [List.getD_eq_getElem?_getD, List.getElem?_modify, List.getD_eq_getElem?_getD]
  rcases Nat.lt_or_ge a uses.length with h | h
  · rw [List.getElem?_eq_getElem h]
    by_cases hi : i = a <;> simp [hi, h]
  · rw [List.getElem?_eq_none h]
    simp [Nat.not_lt.2 h]

lemma length_countDeps (deps : List Nat) (uses : List Nat) :
    (deps.foldl (fun uses d => uses.modify d (· + 1)) uses).length = uses.length := by
  induction deps generalizing uses with
  | nil => rfl
  | cons d deps ih => rw [List.foldl_cons, ih, List.length_modify]

/-- Counting the operands of one node. -/
lemma useOf_countDeps (deps : List Nat) (uses : List Nat) {a : Nat} (ha : a < uses.length) :
    useOf (deps.foldl (fun uses d => uses.modify d (· + 1)) uses) a
      = useOf uses a + deps.count a := by
  induction deps generalizing uses with
  | nil => rfl
  | cons d deps ih =>
    rw [List.foldl_cons, ih _ (by rwa [List.length_modify]), useOf_modify, List.count_cons]
    by_cases h : d = a
    · rw [if_pos ⟨h, ha⟩, beq_iff_eq.2 h, if_pos rfl]
      omega
    · rw [if_neg (fun hd => h hd.1), beq_eq_false_iff_ne.2 h, if_neg Bool.false_ne_true]
      omega

/-- Counting the operands of the nodes. -/
lemma useOf_count (nodes : List Node) (uses : List Nat) {a : Nat} (ha : a < uses.length) :
    useOf (nodes.foldl (fun uses n =>
        n.step.deps.foldl (fun uses d => uses.modify d (· + 1)) uses) uses) a
      = useOf uses a + need nodes a := by
  induction nodes generalizing uses with
  | nil => rfl
  | cons n nodes ih =>
    rw [List.foldl_cons, ih _ (by rwa [length_countDeps]), useOf_countDeps _ _ ha, need_cons]
    omega

lemma length_count (nodes : List Node) (uses : List Nat) :
    (nodes.foldl (fun uses n =>
        n.step.deps.foldl (fun uses d => uses.modify d (· + 1)) uses) uses).length
      = uses.length := by
  induction nodes generalizing uses with
  | nil => rfl
  | cons n nodes ih => rw [List.foldl_cons, ih, length_countDeps]

/-- The counts cover the operands of all nodes. -/
lemma need_le_useCounts (nodes : List Node) (result : Nat) {a : Nat} (ha : a < nodes.length) :
    need nodes a ≤ useOf (useCounts nodes result) a := by
  unfold useCounts
  rw [useOf_modify, useOf_count nodes _ (by simpa using ha)]
  split <;> omega

/-! ## The state of the allocation -/

/-- A slot whose node is live is not free and not the slot of a later node. -/
structure Alloc.Ok (s : Alloc) : Prop where
  free_lt : ∀ t ∈ s.free, t < s.count
  nodup : s.free.Nodup
  slot_lt : ∀ a t : Nat, s.operands[a]? = some (.slot t) → t < s.count
  live : ∀ a t : Nat, s.operands[a]? = some (.slot t) → 0 < useOf s.uses a →
    t ∉ s.free ∧ ∀ k : Nat, a < k → s.operands[k]? ≠ some (.slot t)

/-- The same while the operands of node `i` are consumed: its own slot is not free either. -/
structure Alloc.Busy (s : Alloc) (i : Nat) : Prop extends s.Ok where
  length : s.operands.length = i + 1
  own : ∀ t, s.operands[i]? = some (.slot t) → t ∉ s.free

namespace Alloc

@[simp] lemma operands_retire (s : Alloc) (i : Nat) : (s.retire i).operands = s.operands := by
  unfold retire
  split <;> rfl

@[simp] lemma uses_retire (s : Alloc) (i : Nat) : (s.retire i).uses = s.uses := by
  unfold retire
  split <;> rfl

@[simp] lemma count_retire (s : Alloc) (i : Nat) : (s.retire i).count = s.count := by
  unfold retire
  split <;> rfl

/-- What retiring a node does to the free list. -/
lemma free_retire (s : Alloc) (i : Nat) : (s.retire i).free = s.free ∨
    ∃ t, useOf s.uses i = 0 ∧ s.operands[i]? = some (.slot t) ∧ (s.retire i).free = t :: s.free := by
  unfold retire
  split
  · rename_i slot hu ho
    exact .inr ⟨slot, hu, ho, rfl⟩
  · exact .inl rfl

/-- Freeing a slot that is not free and that no live node has. -/
lemma Ok.retire {s : Alloc} (h : s.Ok) {i : Nat}
    (hi : ∀ t, useOf s.uses i = 0 → s.operands[i]? = some (.slot t) → t ∉ s.free ∧
      ∀ b, 0 < useOf s.uses b → s.operands[b]? ≠ some (.slot t)) : (s.retire i).Ok := by
  rcases free_retire s i with hf | ⟨t, hz, ho, hf⟩
  · refine ⟨?_, ?_, ?_, ?_⟩ <;>
      simp only [hf, count_retire, operands_retire, uses_retire]
    · exact h.free_lt
    · exact h.nodup
    · exact h.slot_lt
    · exact h.live
  · obtain ⟨hfree, hother⟩ := hi t hz ho
    refine ⟨?_, ?_, ?_, ?_⟩ <;>
      simp only [hf, count_retire, operands_retire, uses_retire]
    · intro u hu
      rcases List.mem_cons.1 hu with rfl | hu
      · exact h.slot_lt i u ho
      · exact h.free_lt u hu
    · exact List.nodup_cons.2 ⟨hfree, h.nodup⟩
    · exact h.slot_lt
    · intro a u ha hlive
      obtain ⟨hu, hk⟩ := h.live a u ha hlive
      refine ⟨fun hmem => ?_, hk⟩
      rcases List.mem_cons.1 hmem with rfl | hmem
      · exact hother a hlive ha
      · exact hu hmem

/-- One use of an operand of node `i` is over. -/
lemma Busy.consume {s : Alloc} {i a : Nat} (h : s.Busy i) (ha : a < i)
    (hlive : 0 < useOf s.uses a) : (s.consume a).Busy i := by
  set u : Alloc := { s with uses := s.uses.modify a (· - 1) } with hu
  have hle : ∀ b, useOf u.uses b ≤ useOf s.uses b := by
    intro b
    rw [hu]
    dsimp only
    rw [useOf_modify]
    split <;> omega
  have hOk : u.Ok := ⟨h.free_lt, h.nodup, h.slot_lt, fun b t hb hb' =>
    h.live b t hb (Nat.lt_of_lt_of_le hb' (hle b))⟩
  -- Two nodes with one slot are not both live, so the slot of `a` is nobody else's.
  have hother : ∀ t, s.operands[a]? = some (.slot t) → ∀ b, 0 < useOf u.uses b → useOf u.uses a = 0 →
      s.operands[b]? ≠ some (.slot t) := by
    intro t hat b hb hz hbt
    rcases Nat.lt_trichotomy a b with hab | rfl | hba
    · exact (h.live a t hat hlive).2 b hab hbt
    · omega
    · exact (h.live b t hbt (Nat.lt_of_lt_of_le hb (hle b))).2 a hba hat
  have hretire : (u.retire a).Ok :=
    hOk.retire fun t hz hat => ⟨(h.live a t hat hlive).1, fun b hb => hother t hat b hb hz⟩
  refine ⟨hretire, by rw [Alloc.consume, operands_retire]; exact h.length, fun t hit => ?_⟩
  rw [Alloc.consume, operands_retire] at hit
  rw [Alloc.consume]
  rcases free_retire u a with hf | ⟨v, hz, hav, hf⟩
  · rw [hf]
    exact h.own t hit
  · rw [hf]
    intro hmem
    rcases List.mem_cons.1 hmem with rfl | hmem
    · exact (h.live a t hav hlive).2 i ha hit
    · exact h.own t hit hmem

lemma useOf_consume (s : Alloc) (a b : Nat) :
    useOf (s.consume a).uses b = useOf s.uses b - if a = b then 1 else 0 := by
  rw [consume, uses_retire, useOf_modify]
  by_cases hab : a = b
  · rcases Nat.lt_or_ge b s.uses.length with hb | hb
    · rw [if_pos ⟨hab, hb⟩, if_pos hab]
    · have hz : useOf s.uses b = 0 := by
        unfold useOf
        rw [List.getD_eq_getElem?_getD, List.getElem?_eq_none hb]
        rfl
      rw [hz]
      split <;> rfl
  · rw [if_neg fun h => hab h.1, if_neg hab]
    rfl

/-- All operands of node `i` are consumed, and the uses left cover what comes after. -/
lemma Busy.consumeAll {i : Nat} {rest : Nat → Nat} {deps : List Nat} {s : Alloc} (h : s.Busy i)
    (hd : ∀ a ∈ deps, a < i) (hu : ∀ a, deps.count a + rest a ≤ useOf s.uses a) :
    (deps.foldl Alloc.consume s).Busy i ∧ (deps.foldl Alloc.consume s).operands = s.operands ∧
      (deps.foldl Alloc.consume s).count = s.count ∧
      ∀ a, rest a ≤ useOf (deps.foldl Alloc.consume s).uses a := by
  induction deps generalizing s with
  | nil => exact ⟨h, rfl, rfl, fun a => by simpa using hu a⟩
  | cons d deps ih =>
    have hlive : 0 < useOf s.uses d := by
      have := hu d
      rw [List.count_cons_self] at this
      omega
    have hbusy := h.consume (hd d (by simp)) hlive
    have hnext : ∀ a, deps.count a + rest a ≤ useOf (s.consume d).uses a := by
      intro a
      have := hu a
      rw [useOf_consume]
      rw [List.count_cons] at this
      by_cases hda : d = a
      · rw [beq_iff_eq.2 hda, if_pos rfl] at this
        rw [if_pos hda]
        omega
      · rw [beq_eq_false_iff_ne.2 hda, if_neg Bool.false_ne_true] at this
        rw [if_neg hda]
        omega
    obtain ⟨hb, ho, hc, hr⟩ := ih hbusy (fun a ha => hd a (by simp [ha])) hnext
    refine ⟨hb, ?_, ?_, hr⟩
    · rw [List.foldl_cons, ho, Alloc.consume, operands_retire]
    · rw [List.foldl_cons, hc, Alloc.consume, count_retire]

/-- The operand of node `i`, for a result node and a number of slots. -/
structure Fits (result i count : Nat) (n : Node) (op : Operand) : Prop where
  input : ∀ c, n.step = .input c → op = .input c
  constant : ∀ v, n.step = .constant v → op = .constant v
  output : n.step.computes = true → i = result → op = .output
  slot : n.step.computes = true → i ≠ result → ∃ t, t < count ∧ op = .slot t

lemma Fits.mono {result i count count' : Nat} {n : Node} {op : Operand}
    (h : Fits result i count n op) (hc : count ≤ count') : Fits result i count' n op :=
  ⟨h.input, h.constant, h.output, fun hn hi => by
    obtain ⟨t, ht, ho⟩ := h.slot hn hi
    exact ⟨t, Nat.lt_of_lt_of_le ht hc, ho⟩⟩

/-- The result has no slot. -/
lemma Fits.result_ne {result count : Nat} {n : Node} {op : Operand}
    (h : Fits result result count n op) (t : Nat) : op ≠ .slot t := by
  rcases hn : n.step with c | v | ⟨o, a, b⟩ | a
  · simp [h.input c hn]
  · simp [h.constant v hn]
  · simp [h.output (by rw [hn]; rfl) rfl]
  · simp [h.output (by rw [hn]; rfl) rfl]

lemma fits_input {result i count c : Nat} {n : Node} (h : n.step = .input c) :
    Fits result i count n (.input c) := by
  refine ⟨fun c' hc => ?_, fun v hv => ?_, fun hn => ?_, fun hn => ?_⟩ <;> simp_all [Step.computes]

lemma fits_constant {result i count : Nat} {v : Word} {n : Node} (h : n.step = .constant v) :
    Fits result i count n (.constant v) := by
  refine ⟨fun c' hc => ?_, fun v hv => ?_, fun hn => ?_, fun hn => ?_⟩ <;> simp_all [Step.computes]

lemma fits_computed {result i count : Nat} {n : Node} {op : Operand} (h : n.step.computes = true)
    (ho : i = result → op = .output) (hs : i ≠ result → ∃ t, t < count ∧ op = .slot t) :
    Fits result i count n op := by
  refine ⟨fun c' hc => ?_, fun v hv => ?_, fun _ => ho, fun _ => hs⟩ <;> simp_all [Step.computes]

/-- A node that is not given a slot. -/
lemma Ok.pushOther {s : Alloc} (h : s.Ok) {op : Operand} (hop : ∀ t, op ≠ .slot t) :
    Busy { s with operands := s.operands ++ [op] } s.operands.length := by
  have hold : ∀ k t : Nat, (s.operands ++ [op])[k]? = some (.slot t) → s.operands[k]? = some (.slot t) := by
    intro k t hk
    rw [List.getElem?_append] at hk
    split at hk
    · exact hk
    · rw [List.getElem?_singleton] at hk
      split at hk
      · exact absurd (Option.some.inj hk) (hop t)
      · cases hk
  refine ⟨⟨h.free_lt, h.nodup, fun a t ha => h.slot_lt a t (hold a t ha), fun a t ha hl => ?_⟩,
    by simp, fun t ht => ?_⟩
  · obtain ⟨hf, hk⟩ := h.live a t (hold a t ha) hl
    exact ⟨hf, fun k hak hkt => hk k hak (hold k t hkt)⟩
  · have := hold _ t ht
    simp at this

/-- The slot taken is new to the live nodes. -/
lemma take_spec {s : Alloc} (h : s.Ok) : s.take.1 < s.take.2.count ∧ s.count ≤ s.take.2.count ∧
    s.take.1 ∉ s.take.2.free ∧ s.take.2.operands = s.operands ∧ s.take.2.uses = s.uses ∧
    s.take.2.Ok ∧ ∀ a : Nat, 0 < useOf s.uses a → s.operands[a]? ≠ some (.slot s.take.1) := by
  unfold take
  split
  · rename_i slot free hf
    have hnd := h.nodup
    rw [hf, List.nodup_cons] at hnd
    refine ⟨h.free_lt slot (by rw [hf]; simp), Nat.le_refl _, hnd.1, rfl, rfl, ⟨?_, hnd.2, h.slot_lt, ?_⟩, ?_⟩
    · intro t ht
      exact h.free_lt t (by rw [hf]; simp [ht])
    · intro a t ha hl
      obtain ⟨hnf, hk⟩ := h.live a t ha hl
      exact ⟨fun hmem => hnf (by rw [hf]; simp [hmem]), hk⟩
    · intro a hl ha
      exact (h.live a slot ha hl).1 (by rw [hf]; simp)
  · refine ⟨Nat.lt_succ_self _, Nat.le_succ _, ?_, rfl, rfl, ⟨?_, h.nodup, ?_, h.live⟩, ?_⟩
    · intro hmem
      exact absurd (h.free_lt _ hmem) (Nat.lt_irrefl _)
    · intro t ht
      exact Nat.lt_succ_of_lt (h.free_lt t ht)
    · intro a t ha
      exact Nat.lt_succ_of_lt (h.slot_lt a t ha)
    · intro a hl ha
      exact absurd (h.slot_lt a _ ha) (Nat.lt_irrefl _)

/-- A node that is given a slot. -/
lemma Ok.pushSlot {s : Alloc} (h : s.Ok) :
    Busy { s.take.2 with operands := s.take.2.operands ++ [Operand.slot s.take.1] } s.operands.length := by
  obtain ⟨hlt, hle, hfree, hops, huses, hok, hnew⟩ := take_spec h
  have hold : ∀ k t : Nat, (s.take.2.operands ++ [Operand.slot s.take.1])[k]? = some (.slot t) →
      s.operands[k]? = some (.slot t) ∨ (k = s.operands.length ∧ t = s.take.1) := by
    intro k t hk
    rw [List.getElem?_append, hops] at hk
    split at hk
    · exact .inl hk
    · rename_i hkl
      rw [List.getElem?_singleton] at hk
      split at hk
      · refine .inr ⟨by omega, ?_⟩
        exact (Operand.slot.inj (Option.some.inj hk)).symm
      · cases hk
  refine ⟨⟨hok.free_lt, hok.nodup, fun a t ha => ?_, fun a t ha hl => ?_⟩, ?_, fun t ht => ?_⟩
  · rcases hold a t ha with ha | ⟨-, rfl⟩
    · exact Nat.lt_of_lt_of_le (h.slot_lt a t ha) hle
    · exact hlt
  · dsimp only at hl ⊢
    rcases hold a t ha with ha | ⟨rfl, rfl⟩
    · obtain ⟨hf, hk⟩ := hok.live a t (by rwa [hops]) hl
      refine ⟨hf, fun k hak hkt => ?_⟩
      rcases hold k t hkt with hkt | ⟨-, rfl⟩
      · exact hk k hak (by rwa [hops])
      · exact hnew a (by rwa [← huses]) ha
    · refine ⟨hfree, fun k hak hkt => ?_⟩
      rcases hold k _ hkt with hkt | ⟨rfl, -⟩
      · rw [List.getElem?_eq_none (by omega)] at hkt
        cases hkt
      · exact absurd hak (Nat.lt_irrefl _)
  · simp [hops]
  · rcases hold _ t ht with ht | ⟨-, rfl⟩
    · simp at ht
    · exact hfree

/-- What placing node `n` leaves: the operand of the node, no slot of an operand it reads, and
uses that cover what comes after. -/
structure Advanced (s : Alloc) (result : Nat) (n : Node) (rest : Nat → Nat) (s' : Alloc) :
    Prop where
  ok : s'.Ok
  count : s.count ≤ s'.count
  rest : ∀ a, rest a ≤ useOf s'.uses a
  placed : ∃ op, s'.operands = s.operands ++ [op] ∧ Fits result s.operands.length s'.count n op ∧
    ∀ a ∈ n.step.deps, ∀ t, s.operands[a]? = some (.slot t) → op ≠ .slot t ∧
      ∀ k : Nat, a < k → s.operands[k]? ≠ some (.slot t)

/-- Consuming the operands of a node that was placed. -/
lemma Ok.finish {s u : Alloc} (h : s.Ok) {result : Nat} {n : Node} {rest : Nat → Nat}
    (hd : ∀ a ∈ n.step.deps, a < s.operands.length)
    (hu : ∀ a, n.step.deps.count a + rest a ≤ useOf s.uses a) {op : Operand}
    (hbusy : Busy { u with operands := u.operands ++ [op] } s.operands.length)
    (hops : u.operands = s.operands) (huses : u.uses = s.uses) (hcount : s.count ≤ u.count)
    (hfits : Fits result s.operands.length u.count n op)
    (hnew : ∀ a, 0 < useOf s.uses a → ∀ t, s.operands[a]? = some (.slot t) → op ≠ .slot t) :
    s.Advanced result n rest
      ((n.step.deps.foldl Alloc.consume { u with operands := u.operands ++ [op] }).retire
        s.operands.length) := by
  obtain ⟨hb, ho, hc, hr⟩ := hbusy.consumeAll hd (by simpa only [huses] using hu)
  refine ⟨hb.toOk.retire fun t hz ht => ⟨hb.own t ht, fun b hbl hbt => ?_⟩, ?_, ?_, op, ?_, ?_, ?_⟩
  · rcases Nat.lt_trichotomy b s.operands.length with hlt | rfl | hgt
    · exact (hb.live b t hbt hbl).2 _ hlt ht
    · omega
    · rw [List.getElem?_eq_none (by rw [hb.length]; omega)] at hbt
      cases hbt
  · rw [count_retire, hc]
    exact hcount
  · intro a
    rw [uses_retire]
    exact hr a
  · rw [operands_retire, ho, hops]
  · rw [count_retire, hc]
    exact hfits
  · intro a ha t hat
    have hlive : 0 < useOf s.uses a := by
      have := hu a
      have := List.count_pos_iff.2 ha
      omega
    exact ⟨hnew a hlive t hat, (h.live a t hat hlive).2⟩

lemma step_computed (result : Nat) (s : Alloc) (i : Nat) {n : Node}
    (h : n.step.computes = true) : s.step result i n =
      if i = result then
        (n.step.deps.foldl Alloc.consume { s with operands := s.operands ++ [Operand.output] }).retire i
      else
        (n.step.deps.foldl Alloc.consume
          { s.take.2 with operands := s.take.2.operands ++ [Operand.slot s.take.1] }).retire i := by
  unfold Alloc.step
  rcases hs : n.step with c | v | ⟨o, a, b⟩ | a
  · rw [hs] at h
    cases h
  · rw [hs] at h
    cases h
  · by_cases hr : i = result <;> simp only [hr, if_true, if_false]
  · by_cases hr : i = result <;> simp only [hr, if_true, if_false]

/-- One step of the allocation. -/
lemma Ok.step {s : Alloc} (h : s.Ok) {result : Nat} {n : Node} {rest : Nat → Nat}
    (hd : ∀ a ∈ n.step.deps, a < s.operands.length)
    (hu : ∀ a, n.step.deps.count a + rest a ≤ useOf s.uses a) :
    s.Advanced result n rest (s.step result s.operands.length n) := by
  have hother : ∀ op : Operand, (∀ t, op ≠ .slot t) → Fits result s.operands.length s.count n op →
      s.Advanced result n rest
        ((n.step.deps.foldl Alloc.consume { s with operands := s.operands ++ [op] }).retire
          s.operands.length) := fun op hop hfits =>
    h.finish hd hu (h.pushOther hop) rfl rfl (Nat.le_refl _) hfits fun _ _ t _ => hop t
  rcases hs : n.step.computes
  · rcases hn : n.step with c | v | ⟨o, a, b⟩ | a
    · have := hother (.input c) (by simp) (fits_input hn)
      unfold Alloc.step
      rwa [hn] at this ⊢
    · have := hother (.constant v) (by simp) (fits_constant hn)
      unfold Alloc.step
      rwa [hn] at this ⊢
    · rw [hn] at hs
      cases hs
    · rw [hn] at hs
      cases hs
  · rw [step_computed result s _ hs]
    split
    · rename_i hr
      exact hother .output (by simp) (fits_computed hs (fun _ => rfl) fun hne => absurd hr hne)
    · rename_i hr
      obtain ⟨hlt, hle, -, hops, huses, -, hnew⟩ := take_spec h
      refine h.finish hd hu h.pushSlot hops huses hle
        (fits_computed hs (fun he => absurd he hr) fun _ => ⟨_, hlt, rfl⟩) ?_
      intro a hl t hat he
      exact hnew a hl (by rw [Operand.slot.inj he]; exact hat)

/-- The rest of the allocation, from node `i` on. -/
lemma run_spec {result : Nat} {nodes : List Node} {s : Alloc} (h : s.Ok)
    (hd : ∀ (j : Nat) (n : Node), nodes[j]? = some n → ∀ a ∈ n.step.deps, a < s.operands.length + j)
    (hu : ∀ a, need nodes a ≤ useOf s.uses a) :
    s.count ≤ (run result nodes s.operands.length s).count ∧
      ∃ ops, (run result nodes s.operands.length s).operands = s.operands ++ ops ∧
        ops.length = nodes.length ∧
        ∀ (j : Nat) (n : Node), nodes[j]? = some n → ∃ op, ops[j]? = some op ∧
          Fits result (s.operands.length + j) (run result nodes s.operands.length s).count n op ∧
          ∀ a ∈ n.step.deps, ∀ t, (s.operands ++ ops)[a]? = some (.slot t) →
            ∀ k : Nat, a < k → k ≤ s.operands.length + j → (s.operands ++ ops)[k]? ≠ some (.slot t) := by
  induction nodes generalizing s with
  | nil => exact ⟨Nat.le_refl _, [], by simp [run], rfl, fun j n hj => by simp at hj⟩
  | cons n nodes ih =>
    have hs : s.Advanced result n (need nodes) (s.step result s.operands.length n) :=
      h.step (hd 0 n rfl) fun a => by rw [← need_cons]; exact hu a
    obtain ⟨op, hop, hfits, hreads⟩ := hs.placed
    have hlen : (s.step result s.operands.length n).operands.length = s.operands.length + 1 := by
      rw [hop, List.length_append]
      rfl
    obtain ⟨hcount, ops, hops, hl, hall⟩ := ih hs.ok
      (fun j m hj a ha => by
        have := hd (j + 1) m hj a ha
        omega) hs.rest
    rw [hlen] at hcount hops hall
    rw [run]
    have hlist : s.operands ++ [op] ++ ops = s.operands ++ (op :: ops) := by simp
    rw [hop, hlist] at hops
    refine ⟨Nat.le_trans hs.count hcount, op :: ops, hops, by simp [hl], fun j m hj => ?_⟩
    cases j with
    | zero =>
      obtain rfl : n = m := by simpa using hj
      refine ⟨op, rfl, hfits.mono hcount, fun a ha t hat k hak hk => ?_⟩
      have halt : a < s.operands.length := hd 0 n rfl a ha
      rw [List.getElem?_append_left halt] at hat
      obtain ⟨hne, hold⟩ := hreads a ha t hat
      rcases Nat.lt_or_eq_of_le hk with hlt | rfl
      · rw [List.getElem?_append_left hlt]
        exact hold k hak
      · simpa using hne
    | succ j =>
      obtain ⟨o, ho, hf, hr⟩ := hall j m (by simpa using hj)
      rw [hop, hlist] at hr
      refine ⟨o, by simpa using ho, by rwa [Nat.add_assoc, Nat.add_comm 1] at hf, fun a ha t hat k hak hk => ?_⟩
      exact hr a ha t hat k hak (by omega)

end Alloc

/-! ## The whole allocation -/

/-- The placement of the nodes of a plan. -/
def placement (nodes : List Node) : Recycle.Placement Operand where
  computes i := (nodeAt nodes i).step.computes
  place i := (nodeAt nodes i).operand
  reads i := (nodeAt nodes i).step.deps

/-- The nodes with their operands. -/
def place (nodes : List Node) (operands : List Operand) : List Node :=
  nodes.zipWith (fun n operand => { n with operand := operand }) operands

/-- What the allocation gives: every node its operand, and a sound placement in which the result
keeps its place. -/
structure Placed (nodes placed : List Node) (result count : Nat) : Prop where
  length : placed.length = nodes.length
  node : ∀ i, i < nodes.length → (nodeAt placed i).step = (nodeAt nodes i).step ∧
    (nodeAt placed i).ty = (nodeAt nodes i).ty ∧ (nodeAt placed i).pc = (nodeAt nodes i).pc
  fits : ∀ i, i < nodes.length → Alloc.Fits result i count (nodeAt placed i) (nodeAt placed i).operand
  sound : (placement placed).Sound nodes.length
  keeps : (placement placed).Owns result nodes.length

/-- The initial counts cover all reads. -/
lemma need_le_start {nodes : List Node} (result : Nat)
    (hd : ∀ i, i < nodes.length → ∀ a ∈ (nodeAt nodes i).step.deps, a < i) (a : Nat) :
    need nodes a ≤ useOf (useCounts nodes result) a := by
  rcases Nat.lt_or_ge a nodes.length with ha | ha
  · exact need_le_useCounts nodes result ha
  · have hz : need nodes a = 0 := by
      unfold need
      rw [List.sum_eq_zero]
      intro x hx
      obtain ⟨n, hn, rfl⟩ := List.mem_map.1 hx
      obtain ⟨i, hi, rfl⟩ := List.getElem_of_mem hn
      refine List.count_eq_zero.2 fun hmem => ?_
      have := hd i hi a (by simpa [nodeAt, hi] using hmem)
      omega
    omega

theorem allocate_sound {nodes : List Node} {result : Nat}
    (hd : ∀ i, i < nodes.length → ∀ a ∈ (nodeAt nodes i).step.deps, a < i) :
    Placed nodes (place nodes (allocate nodes result).operands) result
      (allocate nodes result).count := by
  have hnode : ∀ (j : Nat) (n : Node), nodes[j]? = some n → j < nodes.length ∧ nodeAt nodes j = n := by
    intro j n hj
    obtain ⟨hlt, he⟩ := List.getElem?_eq_some_iff.1 hj
    refine ⟨hlt, ?_⟩
    rw [nodeAt, List.getD_eq_getElem?_getD, hj]
    rfl
  have hstart : Alloc.Ok ⟨[], useCounts nodes result, [], 0⟩ :=
    ⟨by simp, List.nodup_nil, by simp, by simp⟩
  obtain ⟨-, ops, hops, hlen, hall⟩ := @Alloc.run_spec result nodes _ hstart
    (fun j n hj a ha => by
      obtain ⟨hlt, rfl⟩ := hnode j n hj
      have := hd j hlt a ha
      simpa using this) (need_le_start result hd)
  have hops' : (allocate nodes result).operands = ops := hops
  have hat : ∀ i, i < nodes.length → ∃ op, ops[i]? = some op ∧
      nodeAt (place nodes ops) i = { nodeAt nodes i with operand := op } := by
    intro i hi
    have hio : i < ops.length := by omega
    refine ⟨ops[i], List.getElem?_eq_getElem hio, ?_⟩
    simp [nodeAt, place, hi, hlen]
  have hfits : ∀ i, i < nodes.length → Alloc.Fits result i (allocate nodes result).count
      (nodeAt (place nodes ops) i) (nodeAt (place nodes ops) i).operand := by
    intro i hi
    obtain ⟨op, ho, hf, -⟩ := hall i (nodeAt nodes i) (by simp [nodeAt, hi])
    obtain ⟨op', ho', he⟩ := hat i hi
    obtain rfl : op = op' := Option.some.inj (ho.symm.trans ho')
    rw [he]
    simp only [List.length_nil, Nat.zero_add] at hf
    exact ⟨hf.input, hf.constant, hf.output, hf.slot⟩
  have hkeeps : ∀ i, i ≤ nodes.length → (placement (place nodes ops)).Owns result i := by
    intro i hi k hk hki hc
    obtain ⟨t, -, ht⟩ := (hfits k (by omega)).slot hc (by omega)
    change (nodeAt _ k).operand ≠ (nodeAt _ result).operand
    rw [ht]
    exact ((hfits result (by omega)).result_ne t).symm
  rw [hops']
  refine ⟨by simp [place, hlen], fun i hi => ?_, hfits, ?_, ?_⟩
  · obtain ⟨op, -, he⟩ := hat i hi
    rw [he]
    exact ⟨rfl, rfl, rfl⟩
  · intro i hi hc a ha hca
    obtain ⟨op, -, he⟩ := hat i hi
    have hai : a < i := hd i hi a (by
      change a ∈ (nodeAt (place nodes ops) i).step.deps at ha
      rwa [he] at ha)
    refine ⟨hai, ?_⟩
    by_cases har : a = result
    · rw [har]
      exact hkeeps (i + 1) (by omega)
    · intro k hak hki hck heq
      obtain ⟨t, -, ht⟩ := (hfits a (by omega)).slot hca har
      obtain ⟨-, -, -, hr⟩ := hall i (nodeAt nodes i) (by simp [nodeAt, hi])
      have hslot : ∀ b, b < nodes.length → (nodeAt (place nodes ops) b).operand = .slot t →
          ops[b]? = some (.slot t) := by
        intro b hb hbt
        obtain ⟨op, ho, he⟩ := hat b hb
        rw [he] at hbt
        rw [ho]
        exact congrArg some hbt
      refine hr a ?_ t (hslot a (by omega) ht) k hak (by simp; omega) (hslot k (by omega) ?_)
      · change a ∈ (nodeAt (place nodes ops) i).step.deps at ha
        rwa [he] at ha
      · exact heq.trans ht
  · exact hkeeps _ (Nat.le_refl _)

end Rnx.Columns
