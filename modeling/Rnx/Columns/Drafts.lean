import Rnx.Columns.Lanes

/-!
# The pass over the instructions agrees with the interpreter

What a draft always satisfies (`Draft.Ok`), how its slot table tracks the frame of the
interpreter on one row (`Draft.Tracks`), and by induction over the instructions that the
interpreter returns the result node's value and charges the row charge, unless a node of the row
faults, and then it ends with an error (`prepareCode_run`).
-/

namespace Rnx.Columns

open Exec

/-! ## Drafts -/

/-- What the pass keeps: typed nodes, a slot table inside them, and flags that describe them. -/
structure Draft.Ok (inputs : List ColumnType) (d : Draft) : Prop where
  typed : Typed inputs d.nodes
  slots_lt : ∀ s k : Nat, d.slots[s]? = some (some k) → k < d.nodes.length
  boolean : d.booleanPlan = true → ∀ k, k < d.nodes.length →
    (nodeAt d.nodes k).ty = .bool ∧ Draft.booleanStep (nodeAt d.nodes k).step = true
  floats : d.f64Plan = true → ∀ k, k < d.nodes.length →
    (nodeAt d.nodes k).ty = .f64 ∧ Draft.f64Step (nodeAt d.nodes k).step = true
  predicate : d.predicatePlan = true → ∀ k, k < d.nodes.length →
    Draft.predicateStep d.nodes (nodeAt d.nodes k).step = true

/-- The slot table tracks a frame: a slot with a node holds the value of the node on the row. -/
structure Draft.Tracks (F : FloatOps) (input : Nat → Word) (d : Draft) (slots : List Value) :
    Prop where
  length : d.slots.length = slots.length
  holds : ∀ s k : Nat, d.slots[s]? = some (some k) →
    slots[s]? = some (toValue (nodeAt d.nodes k).ty (lane F d.nodes input k).1)

/-- The nodes of a later draft extend those of an earlier one. -/
def Draft.Extends (d d' : Draft) : Prop := ∃ more, d'.nodes = d.nodes ++ more

lemma Draft.Extends.refl (d : Draft) : d.Extends d := ⟨[], by simp⟩

lemma Draft.Extends.trans {d d' d'' : Draft} (h : d.Extends d') (h' : d'.Extends d'') :
    d.Extends d'' := by
  obtain ⟨m, hm⟩ := h
  obtain ⟨m', hm'⟩ := h'
  exact ⟨m ++ m', by rw [hm', hm, List.append_assoc]⟩

/-- A fault of a row stays a fault. -/
lemma Draft.Extends.faulty {F : FloatOps} {inputs : List ColumnType} {input : Nat → Word}
    {d d' : Draft} (h : d.Extends d') (ht : Typed inputs d.nodes) (hf : Faulty F d.nodes input) :
    Faulty F d'.nodes input := by
  obtain ⟨m, hm⟩ := h
  obtain ⟨k, hk, hv⟩ := hf
  refine ⟨k, ?_, ?_⟩
  · rw [hm, List.length_append]
    omega
  · rw [hm, lane_append F input ht m hk]
    exact hv

/-! ## Folding -/

section

variable {F : FloatOps} {inputs : List ColumnType} {nodes : List Node} {input : Nat → Word}

/-- A folded step has the lanes of the step. -/
lemma stepLane_fold (ht : Typed inputs nodes) {step : Step}
    (hd : ∀ a ∈ step.deps, a < nodes.length) :
    stepLane F nodes input (fun a => (lane F nodes input a).1) (Draft.fold F nodes step)
      = stepLane F nodes input (fun a => (lane F nodes input a).1) step := by
  have hconst : ∀ a v, a < nodes.length → (nodeAt nodes a).step = .constant v →
      (lane F nodes input a).1 = v := by
    intro a v ha hs
    rw [lane_of_typed ht ha, hs]
    rfl
  rcases step with c | v | ⟨op, a, b⟩ | a
  · rfl
  · rfl
  · have ha : a < nodes.length := hd a (by simp [Step.deps])
    have hb : b < nodes.length := hd b (by simp [Step.deps])
    unfold Draft.fold
    dsimp only
    split
    · rename_i x y hx hy
      split
      · rfl
      · rename_i hf
        rw [stepLane, stepLane, hconst a x ha hx, hconst b y hb hy]
        refine Prod.ext rfl ?_
        simpa using hf
    · rfl
  · have ha : a < nodes.length := hd a (by simp [Step.deps])
    unfold Draft.fold
    dsimp only
    split
    · rename_i x hx
      rw [stepLane, stepLane, hconst a x ha hx]
    · rfl

/-- Folding keeps the type of a step. -/
lemma TypedStep.fold (ht : Typed inputs nodes) {ty : ColumnType} {step : Step}
    (h : TypedStep inputs nodes nodes.length ty step) :
    TypedStep inputs nodes nodes.length ty (Draft.fold F nodes step) := by
  have hconst : ∀ a v, a < nodes.length → (nodeAt nodes a).step = .constant v →
      WordOf (nodeAt nodes a).ty v := by
    intro a v ha hs
    have := ht a ha
    unfold TypedNode at this
    rwa [hs] at this
  rcases step with c | v | ⟨op, a, b⟩ | a
  · exact h
  · exact h
  · obtain ⟨ha, hb, hty⟩ := h
    unfold Draft.fold
    dsimp only
    split
    · rename_i x y hx hy
      split
      · exact ⟨ha, hb, hty⟩
      · exact binary_wordOf F (hconst a x ha hx) (hconst b y hb hy) hty
    · exact ⟨ha, hb, hty⟩
  · obtain ⟨ha, hta, hty⟩ := h
    unfold Draft.fold
    dsimp only
    split
    · exact wordOf_bool _ _
    · exact ⟨ha, hta, hty⟩

/-- Folding gives the step itself or a constant. -/
lemma fold_cases (F : FloatOps) (nodes : List Node) (step : Step) :
    Draft.fold F nodes step = step ∨ ∃ v, Draft.fold F nodes step = .constant v := by
  rcases step with c | v | ⟨op, a, b⟩ | a
  · exact .inl rfl
  · exact .inl rfl
  · unfold Draft.fold
    dsimp only
    split
    · split
      · exact .inl rfl
      · exact .inr ⟨_, rfl⟩
    · exact .inl rfl
  · unfold Draft.fold
    dsimp only
    split
    · exact .inr ⟨_, rfl⟩
    · exact .inl rfl

lemma TypedStep.append {k : Nat} {ty : ColumnType} {step : Step} (hk : k ≤ nodes.length)
    (h : TypedStep inputs nodes k ty step) (more : List Node) :
    TypedStep inputs (nodes ++ more) k ty step := by
  rcases step with c | v | ⟨op, a, b⟩ | a
  · exact h
  · exact h
  · obtain ⟨ha, hb, hty⟩ := h
    exact ⟨ha, hb, by rw [nodeAt_append (by omega), nodeAt_append (by omega)]; exact hty⟩
  · obtain ⟨ha, hta, hty⟩ := h
    exact ⟨ha, by rw [nodeAt_append (by omega)]; exact hta, hty⟩

/-- Adding a typed node. -/
lemma Typed.push (ht : Typed inputs nodes) {ty : ColumnType} {step : Step}
    (h : TypedStep inputs nodes nodes.length ty step) (pc : Nat) (operand : Operand) :
    Typed inputs (nodes ++ [⟨step, ty, pc, operand⟩]) := by
  intro k hk
  rw [List.length_append, List.length_singleton] at hk
  unfold TypedNode
  rcases Nat.lt_or_eq_of_le (Nat.le_of_lt_succ hk) with hlt | rfl
  · rw [nodeAt_append hlt]
    exact TypedStep.append (by omega) (ht k hlt) _
  · rw [nodeAt_length]
    exact TypedStep.append (Nat.le_refl _) h _

lemma predicateStep_append {step : Step} (hd : ∀ a ∈ step.deps, a < nodes.length)
    (more : List Node) :
    Draft.predicateStep (nodes ++ more) step = Draft.predicateStep nodes step := by
  rcases step with c | v | ⟨op, a, b⟩ | a
  · rfl
  · rfl
  · have ha : a < nodes.length := hd a (by simp [Step.deps])
    unfold Draft.predicateStep
    dsimp only
    rw [nodeAt_append ha]
  · rfl

end

/-! ## One instruction -/

section

variable {F : FloatOps} {inputs : List ColumnType} {d d' : Draft}

lemma Draft.setSlot_eq {slot : Nat} {node : Option Nat} (h : d.setSlot slot node = .ok d') :
    slot < d.slots.length ∧ d' = { d with slots := d.slots.set slot node } := by
  unfold Draft.setSlot at h
  split at h
  · rename_i hs
    exact ⟨hs, (Except.ok.inj h).symm⟩
  · cases h

lemma Draft.get_eq {slot k : Nat} (h : d.get slot = .ok k) : d.slots[slot]? = some (some k) := by
  unfold Draft.get at h
  split at h
  · rename_i hs
    rw [hs, Except.ok.inj h]
  · cases h

/-- Writing a slot with a node already there. -/
lemma Draft.Ok.setSlot (hd : d.Ok inputs) {slot : Nat} {node : Option Nat}
    (hn : ∀ k ∈ node, k < d.nodes.length) :
    Draft.Ok inputs { d with slots := d.slots.set slot node } where
  typed := hd.typed
  slots_lt := by
    intro s k hs
    dsimp only at hs ⊢
    rw [List.getElem?_set] at hs
    split at hs
    · split at hs
      · exact hn k (by simpa using hs)
      · cases hs
    · exact hd.slots_lt s k hs
  boolean := hd.boolean
  floats := hd.floats
  predicate := hd.predicate

lemma Draft.Tracks.setSlot {input : Nat → Word} {slots : List Value} (ht : d.Tracks F input slots)
    {slot : Nat} {node : Option Nat} {v : Value}
    (hv : ∀ k ∈ node, v = toValue (nodeAt d.nodes k).ty (lane F d.nodes input k).1) :
    Draft.Tracks F input { d with slots := d.slots.set slot node } (slots.set slot v) where
  length := by simp [ht.length]
  holds := by
    intro s k hs
    dsimp only at hs ⊢
    rw [List.getElem?_set] at hs ⊢
    rw [← ht.length]
    split at hs
    · rename_i he
      subst he
      split at hs
      · rename_i hlt
        rw [if_pos rfl, if_pos hlt, hv k (by simpa using hs)]
      · cases hs
    · rename_i he
      rw [if_neg he]
      exact ht.holds s k hs

/-- What `push` leaves. -/
lemma Draft.push_eq {pc out : Nat} {step : Step} {ty : ColumnType}
    (h : d.push F pc out step ty = .ok d') :
    out < d.slots.length ∧ d' = { d.classify step ty with
      slots := d.slots.set out (some d.nodes.length)
      nodes := d.nodes ++ [⟨Draft.fold F d.nodes step, ty, pc, .output⟩] } := by
  obtain ⟨next, hn, hd⟩ := Except.bind_eq_ok.1 h
  obtain ⟨hlt, rfl⟩ := Draft.setSlot_eq hn
  exact ⟨hlt, (Except.ok.inj hd).symm⟩

lemma Draft.Ok.push (hd : d.Ok inputs) {pc out : Nat} {step : Step} {ty : ColumnType}
    (hs : TypedStep inputs d.nodes d.nodes.length ty step)
    (h : d.push F pc out step ty = .ok d') : d'.Ok inputs := by
  obtain ⟨hlt, rfl⟩ := Draft.push_eq h
  have hfold := TypedStep.fold (F := F) hd.typed hs
  have hlast : ∀ {p : Node → Prop} {k : Nat},
      (∀ k, k < d.nodes.length → p (nodeAt d.nodes k)) →
      p ⟨Draft.fold F d.nodes step, ty, pc, .output⟩ →
      k < (d.nodes ++ [Node.mk (Draft.fold F d.nodes step) ty pc .output]).length →
      p (nodeAt (d.nodes ++ [⟨Draft.fold F d.nodes step, ty, pc, .output⟩]) k) := by
    intro p k hold hnew hk
    rw [List.length_append, List.length_singleton] at hk
    rcases Nat.lt_or_eq_of_le (Nat.le_of_lt_succ hk) with hk | rfl
    · rw [nodeAt_append hk]
      exact hold k hk
    · rw [nodeAt_length]
      exact hnew
  refine ⟨hd.typed.push hfold _ _, ?_, ?_, ?_, ?_⟩
  · intro s k hsk
    dsimp only at hsk ⊢
    rw [List.length_append, List.length_singleton]
    rw [List.getElem?_set] at hsk
    split at hsk
    · have : d.nodes.length = k := by simpa using hsk
      omega
    · have := hd.slots_lt s k hsk
      omega
  · intro hb k hk
    have hb : (d.booleanPlan && (decide (ty = .bool) && Draft.booleanStep step)) = true := hb
    simp only [Bool.and_eq_true, decide_eq_true_eq] at hb
    refine hlast (p := fun n => n.ty = .bool ∧ Draft.booleanStep n.step = true)
      (hd.boolean hb.1) ⟨hb.2.1, ?_⟩ hk
    rcases fold_cases F d.nodes step with he | ⟨v, he⟩ <;> rw [he]
    · exact hb.2.2
    · rfl
  · intro hb k hk
    have hb : (d.f64Plan && (decide (ty = .f64) && Draft.f64Step step)) = true := hb
    simp only [Bool.and_eq_true, decide_eq_true_eq] at hb
    refine hlast (p := fun n => n.ty = .f64 ∧ Draft.f64Step n.step = true)
      (hd.floats hb.1) ⟨hb.2.1, ?_⟩ hk
    rcases fold_cases F d.nodes step with he | ⟨v, he⟩ <;> rw [he]
    · exact hb.2.2
    · rfl
  · intro hb k hk
    have hb : (d.predicatePlan && Draft.predicateStep d.nodes step) = true := hb
    simp only [Bool.and_eq_true] at hb
    refine hlast (p := fun n => Draft.predicateStep
      (d.nodes ++ [⟨Draft.fold F d.nodes step, ty, pc, .output⟩]) n.step = true) ?_ ?_ hk
    · intro k hk
      have hdeps := TypedStep.deps_lt (hd.typed k hk)
      rw [predicateStep_append (fun a ha => Nat.lt_trans (hdeps a ha) hk)]
      exact hd.predicate hb.1 k hk
    · dsimp only
      rw [predicateStep_append hfold.deps_lt]
      rcases fold_cases F d.nodes step with he | ⟨v, he⟩ <;> rw [he]
      · exact hb.2
      · rfl

/-- What an instruction does that computes a value into a slot, given its lane. -/
def Computes (next : Except Trap Next) (slots : List Value) (out : Nat) (ty : ColumnType)
    (lane : Word × Bool) : Prop :=
  (lane.2 = false → next = (put slots out (toValue ty lane.1)).map .go) ∧
    (lane.2 = true → ∃ e : PrimitiveError, e.kind = .overflow ∧ next = .error (.primitive e))

/-- The three things an instruction does to the draft, each with what the interpreter does on a
frame the draft tracks: it computes a node into a slot, it writes a slot, or it returns. -/
inductive Prepared (F : FloatOps) (inputs : List ColumnType) (d : Draft) (pc : Nat) (op : Op) :
    Draft → Option Nat → Prop
  | push {d' : Draft} (out : Nat) (step : Step) (ty : ColumnType)
      (typed : TypedStep inputs d.nodes d.nodes.length ty step)
      (pushed : d.push F pc out step ty = .ok d')
      (runs : ∀ input slots, TypedRow inputs input → d.Tracks F input slots →
        Computes (arm F slots op) slots out ty
          (stepLane F d.nodes input (fun a => (lane F d.nodes input a).1) step)) :
      Prepared F inputs d pc op d' none
  | set {d' : Draft} (slot : Nat) (node : Option Nat) (known : ∀ k ∈ node, k < d.nodes.length)
      (written : d.setSlot slot node = .ok d')
      (runs : ∀ input slots, d.Tracks F input slots →
        ∃ v, arm F slots op = (put slots slot v).map .go ∧
          ∀ k ∈ node, v = toValue (nodeAt d.nodes k).ty (lane F d.nodes input k).1) :
      Prepared F inputs d pc op d' none
  | result (k : Nat) (known : k < d.nodes.length)
      (runs : ∀ input slots, d.Tracks F input slots →
        arm F slots op = .ok (.done (toValue (nodeAt d.nodes k).ty (lane F d.nodes input k).1))) :
      Prepared F inputs d pc op d (some k)

lemma Draft.Tracks.slot {input : Nat → Word} {slots : List Value} (ht : d.Tracks F input slots)
    {s k : Nat} (h : d.get s = .ok k) :
    Exec.slot slots s = .ok (toValue (nodeAt d.nodes k).ty (lane F d.nodes input k).1) := by
  rw [Exec.slot, ht.holds s k (Draft.get_eq h)]
  rfl

lemma map_none_eq {x : Except Stop Draft} {r : Draft × Option Nat}
    (h : x.map (·, none) = .ok r) : x = .ok r.1 ∧ r.2 = none := by
  rcases x with e | a
  · cases h
  · obtain rfl := Except.ok.inj h
    exact ⟨rfl, rfl⟩

lemma computes_value {next : Except Trap Next} {slots : List Value} {out : Nat} {ty : ColumnType}
    {w : Word} (h : next = (put slots out (toValue ty w)).map .go) :
    Computes next slots out ty (w, false) :=
  ⟨fun _ => h, fun hf => nomatch hf⟩

/-- Every arm of the pass is one of the three. -/
lemma prepareOp_cases (hd : d.Ok inputs) {pc : Nat} {op : Op} {result : Option Nat}
    (h : prepareOp F d pc op = .ok (d', result)) : Prepared F inputs d pc op d' result := by
  unfold prepareOp at h
  split at h
  · obtain ⟨h, rfl⟩ := map_none_eq h
    refine .push _ _ _ ?_ h fun input slots _ _ => computes_value ?_
    · intro hb
      cases hb
    · rw [arm, toValue, I64.ofWord_toWord]
  · obtain ⟨h, rfl⟩ := map_none_eq h
    refine .push _ _ _ ?_ h fun input slots _ _ => computes_value rfl
    intro hb
    cases hb
  · obtain ⟨h, rfl⟩ := map_none_eq h
    refine .push _ _ _ ?_ h fun input slots _ _ => computes_value ?_
    · exact wordOf_bool _ _
    · rw [arm, toValue, bool_ne_zero]
  · obtain ⟨h, rfl⟩ := map_none_eq h
    exact .set _ none (by simp) h fun input slots _ => ⟨_, rfl, by simp⟩
  · obtain ⟨k, hk, h⟩ := Except.bind_eq_ok.1 h
    obtain ⟨h, rfl⟩ := map_none_eq h
    refine .set _ (some k) ?_ h fun input slots ht =>
      ⟨toValue (nodeAt d.nodes k).ty (lane F d.nodes input k).1, ?_, ?_⟩
    · intro j hj
      obtain rfl := Option.some.inj hj
      exact hd.slots_lt _ _ (Draft.get_eq hk)
    · rw [arm, ht.slot hk]
      rfl
    · intro j hj
      obtain rfl := Option.some.inj hj
      rfl
  · obtain ⟨h, rfl⟩ := map_none_eq h
    exact .set _ none (by simp) h fun input slots _ => ⟨_, rfl, by simp⟩
  · obtain ⟨k, hk, h⟩ := Except.bind_eq_ok.1 h
    split at h
    · cases h
    · rename_i hty
      rw [not_not] at hty
      obtain ⟨h, rfl⟩ := map_none_eq h
      refine .push _ _ _ ?_ h fun input slots _ ht => computes_value ?_
      · exact ⟨hd.slots_lt _ _ (Draft.get_eq hk), hty, rfl⟩
      · rw [arm, ht.slot hk, hty]
        change (put slots _ (.bool !((lane F d.nodes input k).1 != 0))).map Next.go = _
        rw [toValue, bool_ne_zero, bne, Bool.not_not]
  · obtain ⟨a, ha, h⟩ := Except.bind_eq_ok.1 h
    obtain ⟨b, hb, h⟩ := Except.bind_eq_ok.1 h
    obtain ⟨ty, hty, h⟩ := Except.bind_eq_ok.1 h
    obtain ⟨h, rfl⟩ := map_none_eq h
    have hla := hd.slots_lt _ _ (Draft.get_eq ha)
    have hlb := hd.slots_lt _ _ (Draft.get_eq hb)
    refine .push _ _ _ ?_ h fun input slots hrow ht => ?_
    · exact ⟨hla, hlb, hty⟩
    obtain ⟨hv, he⟩ := operate_agrees F (lane_wordOf (F := F) hd.typed hrow hla)
      (lane_wordOf (F := F) hd.typed hrow hlb) hty
    rw [arm, ht.slot ha, ht.slot hb]
    refine ⟨fun hf => ?_, fun hf => ?_⟩
    · change (do
        let v ← (operate F _ _ _).mapError Trap.primitive
        (put slots _ v).map Next.go) = _
      rw [hv hf]
      rfl
    · obtain ⟨e, hkind, he⟩ := he hf
      refine ⟨e, hkind, ?_⟩
      change (do
        let v ← (operate F _ _ _).mapError Trap.primitive
        (put slots _ v).map Next.go) = _
      rw [he]
      rfl
  · obtain ⟨k, hk, h⟩ := Except.bind_eq_ok.1 h
    obtain ⟨rfl, rfl⟩ := Prod.mk.inj (Except.ok.inj h)
    refine .result k (hd.slots_lt _ _ (Draft.get_eq hk)) fun input slots ht => ?_
    rw [arm, ht.slot hk]
    rfl
  · cases h

/-! ## The whole pass -/

/-- The lane of a node that was pushed, and whether the row faults with it. -/
lemma Draft.push_lane (hd : d.Ok inputs) {pc out : Nat} {step : Step} {ty : ColumnType}
    (hs : TypedStep inputs d.nodes d.nodes.length ty step)
    (h : d.push F pc out step ty = .ok d') (input : Nat → Word) :
    lane F d'.nodes input d.nodes.length
      = stepLane F d.nodes input (fun a => (lane F d.nodes input a).1) step ∧
    (Faulty F d'.nodes input ↔ Faulty F d.nodes input ∨
      (stepLane F d.nodes input (fun a => (lane F d.nodes input a).1) step).2 = true) := by
  have hok := hd.push hs h
  obtain ⟨-, rfl⟩ := Draft.push_eq h
  have hfold := TypedStep.fold (F := F) hd.typed hs
  have hold : ∀ k, k < d.nodes.length →
      lane F (d.nodes ++ [⟨Draft.fold F d.nodes step, ty, pc, .output⟩]) input k
        = lane F d.nodes input k := fun k hk => lane_append F input hd.typed _ hk
  have hnew : lane F (d.nodes ++ [⟨Draft.fold F d.nodes step, ty, pc, .output⟩]) input
      d.nodes.length = stepLane F d.nodes input (fun a => (lane F d.nodes input a).1) step := by
    rw [lane_of_typed hok.typed (by simp), nodeAt_length, ← stepLane_fold hd.typed hs.deps_lt]
    exact stepLane_append hfold.deps_lt hold
  refine ⟨hnew, ?_⟩
  constructor
  · rintro ⟨k, hk, hf⟩
    dsimp only at hk hf
    rw [List.length_append, List.length_singleton] at hk
    rcases Nat.lt_or_eq_of_le (Nat.le_of_lt_succ hk) with hlt | rfl
    · exact .inl ⟨k, hlt, by rwa [hold k hlt] at hf⟩
    · exact .inr (by rwa [hnew] at hf)
  · rintro (⟨k, hk, hf⟩ | hf)
    · refine ⟨k, ?_, ?_⟩
      · dsimp only
        rw [List.length_append]
        omega
      · dsimp only
        rwa [hold k hk]
    · refine ⟨d.nodes.length, by simp, ?_⟩
      dsimp only
      rwa [hnew]

/-- A frame that is tracked stays tracked when a node is pushed and its value written. -/
lemma Draft.Tracks.push {input : Nat → Word} {slots : List Value} (ht : d.Tracks F input slots)
    (hd : d.Ok inputs) {pc out : Nat} {step : Step} {ty : ColumnType}
    (hs : TypedStep inputs d.nodes d.nodes.length ty step)
    (h : d.push F pc out step ty = .ok d') :
    d'.Tracks F input (slots.set out (toValue ty
      (stepLane F d.nodes input (fun a => (lane F d.nodes input a).1) step).1)) := by
  have hlane := (Draft.push_lane hd hs h input).1
  obtain ⟨hlt, rfl⟩ := Draft.push_eq h
  refine ⟨by simp [ht.length], fun s k hk => ?_⟩
  dsimp only at hk hlane ⊢
  rw [List.getElem?_set] at hk ⊢
  rw [← ht.length]
  split at hk
  · rename_i he
    subst he
    obtain rfl : d.nodes.length = k := by simpa [hlt] using hk
    rw [if_pos rfl, if_pos hlt, nodeAt_length, hlane]
  · rename_i he
    have hkn := hd.slots_lt s k hk
    rw [if_neg he, ht.holds s k hk, nodeAt_append hkn, lane_append F input hd.typed _ hkn]

end

/-- What the pass says of the loop from a point on: the draft only grows, and on every row whose
frame is tracked the interpreter pays the charges counted from here and returns the value of the
result node, unless a node added from here on faults. -/
structure Pass (F : FloatOps) (inputs : List ColumnType) (code : List CachedInstruction)
    (d d' : Draft) (result : Nat) : Prop where
  ok : d'.Ok inputs
  grows : d.Extends d'
  result_lt : result < d'.nodes.length
  charge : d.rowCharge ≤ d'.rowCharge
  runs : ∀ input slots, TypedRow inputs input → d.Tracks F input slots →
    ¬Faulty F d'.nodes input → ∀ fuel, loop F code slots fuel =
      if d'.rowCharge - d.rowCharge ≤ fuel then
        .ok (toValue (nodeAt d'.nodes result).ty (lane F d'.nodes input result).1,
          fuel - (d'.rowCharge - d.rowCharge))
      else .error .fuelExhausted
  faults : ∀ input slots, TypedRow inputs input → d.Tracks F input slots →
    ¬Faulty F d.nodes input → Faulty F d'.nodes input → ∀ fuel, ∃ e,
      loop F code slots fuel = .error e

section

variable {F : FloatOps} {inputs : List ColumnType} {d d' : Draft}

/-- The same for one instruction that does not return. -/
structure Stepped (F : FloatOps) (inputs : List ColumnType) (i : CachedInstruction)
    (d d' : Draft) : Prop where
  ok : d'.Ok inputs
  grows : d.Extends d'
  charge : d'.rowCharge = d.rowCharge + if i.charged then 1 else 0
  runs : ∀ input slots, TypedRow inputs input → d.Tracks F input slots →
    ¬Faulty F d'.nodes input → ∃ next, arm F slots i.op = .ok (.go next) ∧ d'.Tracks F input next
  faults : ∀ input slots, TypedRow inputs input → d.Tracks F input slots →
    ¬Faulty F d.nodes input → Faulty F d'.nodes input →
      ∃ e : PrimitiveError, e.kind = .overflow ∧ arm F slots i.op = .error (.primitive e)

lemma put_ok {slots : List Value} {n : Nat} (h : n < slots.length) (v : Value) :
    put slots n v = .ok (slots.set n v) := if_pos h

/-- Counting a charge changes nothing else. -/
lemma Draft.Ok.charged (hd : d.Ok inputs) (n : Nat) :
    Draft.Ok inputs { d with rowCharge := n } :=
  ⟨hd.typed, hd.slots_lt, hd.boolean, hd.floats, hd.predicate⟩

/-- An instruction of the pass that does not return. -/
lemma stepped_of_prepareOp (hd : d.Ok inputs) {i : CachedInstruction} {pc : Nat}
    (h : prepareOp F { d with rowCharge := d.rowCharge + if i.charged then 1 else 0 } pc i.op
      = .ok (d', none)) : Stepped F inputs i d d' := by
  have hd0 := hd.charged (d.rowCharge + if i.charged then 1 else 0)
  generalize hc : ({ d with rowCharge := d.rowCharge + if i.charged then 1 else 0 } : Draft) = d0
    at h hd0
  have hnodes : d0.nodes = d.nodes := by rw [← hc]
  have hcharge : d0.rowCharge = d.rowCharge + if i.charged then 1 else 0 := by rw [← hc]
  have htracks : ∀ {input : Nat → Word} {slots : List Value}, d.Tracks F input slots →
      d0.Tracks F input slots := fun ht => hc ▸ ⟨ht.length, ht.holds⟩
  have hlength : ∀ {input : Nat → Word} {slots : List Value} {n : Nat}, d.Tracks F input slots →
      n < d0.slots.length → n < slots.length := by
    intro input slots n ht hn
    rwa [← (htracks ht).length]
  cases prepareOp_cases hd0 h with
  | push out step ty typed pushed runs =>
    have hlane := fun input => (Draft.push_lane hd0 typed pushed input).2
    have hput := (Draft.push_eq pushed).1
    refine ⟨hd0.push typed pushed, ?_, ?_, ?_, ?_⟩
    · obtain ⟨-, rfl⟩ := Draft.push_eq pushed
      exact ⟨_, congrArg (· ++ _) hnodes⟩
    · obtain ⟨-, rfl⟩ := Draft.push_eq pushed
      exact hcharge
    · intro input slots hrow ht hf
      have hv := (runs input slots hrow (htracks ht)).1
        (Bool.eq_false_iff.2 fun he => hf ((hlane input).2 (.inr he)))
      rw [put_ok (hlength ht hput)] at hv
      exact ⟨_, hv, (htracks ht).push hd0 typed pushed⟩
    · intro input slots hrow ht hn hf
      rw [hlane, hnodes] at hf
      refine (runs input slots hrow (htracks ht)).2 ?_
      rw [hnodes]
      exact hf.resolve_left hn
  | set slot node known written runs =>
    obtain ⟨hput, rfl⟩ := Draft.setSlot_eq written
    refine ⟨hd0.setSlot known, ⟨[], by simp [hnodes]⟩, hcharge, ?_, ?_⟩
    · intro input slots hrow ht hf
      obtain ⟨v, hv, hk⟩ := runs input slots (htracks ht)
      rw [put_ok (hlength ht hput)] at hv
      exact ⟨_, hv, (htracks ht).setSlot hk⟩
    · intro input slots hrow ht hn hf
      exact absurd (by rwa [← hnodes]) hn

/-- A step in front of a pass. -/
lemma Pass.cons {i : CachedInstruction} {code : List CachedInstruction} {d'' : Draft}
    {result : Nat} (h : Stepped F inputs i d d')
    (hp : Pass F inputs code d' d'' result) : Pass F inputs (i :: code) d d'' result := by
  have hcharge := h.charge
  have hle := hp.charge
  refine ⟨hp.ok, h.grows.trans hp.grows, hp.result_lt, by omega, ?_, ?_⟩
  · intro input slots hrow ht hf fuel
    obtain ⟨next, harm, ht'⟩ := h.runs input slots hrow ht
      fun hf' => hf (hp.grows.faulty h.ok.typed hf')
    have hrest := hp.runs input next hrow ht' hf
    have hloop : loop F (i :: code) slots fuel
        = (Exec.charge i.charged fuel >>= fun fuel => loop F code next fuel) := by
      rw [loop, harm]
      rfl
    rw [hloop]
    unfold Exec.charge
    cases hc : i.charged
    · rw [if_neg Bool.false_ne_true]
      rw [hc, if_neg Bool.false_ne_true, Nat.add_zero] at hcharge
      rw [← hcharge]
      exact hrest fuel
    · rw [if_pos rfl]
      rw [hc, if_pos rfl] at hcharge
      split
      · rw [if_neg (by omega)]
        rfl
      · change loop F code next (fuel - 1) = _
        rw [hrest (fuel - 1)]
        by_cases hfuel : d''.rowCharge - d.rowCharge ≤ fuel
        · rw [if_pos hfuel, if_pos (by omega),
            show fuel - 1 - (d''.rowCharge - d'.rowCharge) = fuel - (d''.rowCharge - d.rowCharge)
              by omega]
        · rw [if_neg hfuel, if_neg (by omega)]
  · intro input slots hrow ht hn hf fuel
    rw [loop]
    rcases Exec.charge i.charged fuel with e | fuel
    · exact ⟨e, rfl⟩
    · by_cases hf' : Faulty F d'.nodes input
      · obtain ⟨e, -, he⟩ := h.faults input slots hrow ht hn hf'
        rw [he]
        exact ⟨.primitive e, rfl⟩
      · obtain ⟨next, harm, ht'⟩ := h.runs input slots hrow ht hf'
        rw [harm]
        exact hp.faults input next hrow ht' hf' hf fuel

/-- The instruction that returns ends a pass. -/
lemma pass_of_result (hd : d.Ok inputs) {i : CachedInstruction} {code : List CachedInstruction}
    {pc result : Nat}
    (h : prepareOp F { d with rowCharge := d.rowCharge + if i.charged then 1 else 0 } pc i.op
      = .ok (d', some result)) : Pass F inputs (i :: code) d d' result := by
  have hd0 := hd.charged (d.rowCharge + if i.charged then 1 else 0)
  cases prepareOp_cases hd0 h with
  | result k known runs =>
    refine ⟨hd0, ⟨[], by simp⟩, known, by simp, ?_, ?_⟩
    · intro input slots hrow ht hf fuel
      rw [loop, runs input slots ⟨ht.length, ht.holds⟩]
      dsimp only
      rw [Nat.add_sub_cancel_left]
      unfold Exec.charge
      cases i.charged
      · rw [if_neg Bool.false_ne_true, if_neg Bool.false_ne_true, if_pos (Nat.zero_le _)]
        rfl
      · rw [if_pos rfl, if_pos rfl]
        split
        · rw [if_neg (by omega)]
          rfl
        · rw [if_pos (by omega)]
          rfl
    · intro input slots hrow ht hn hf
      exact absurd hf hn

/-- One instruction of the pass: it returns, or the pass goes on with the next one. -/
lemma prepareCode_cons {f : Function} (hf : f.prepareCache = .ok f) {result : Nat}
    {i : Instruction} {code : List Instruction} {pc : Nat} (hcode : f.code.drop pc = i :: code)
    (h : prepareCode F f (i :: code) pc d = .ok (d', result)) :
    ∃ op, f.cached.drop pc = ⟨op, i.charged⟩ :: f.cached.drop (pc + 1) ∧
      f.code.drop (pc + 1) = code ∧ ∃ d₁ r,
        prepareOp F { d with rowCharge := d.rowCharge + if i.charged then 1 else 0 } pc op
          = .ok (d₁, r) ∧
        ((r = some result ∧ d₁ = d') ∨
          (r = none ∧ prepareCode F f code (pc + 1) d₁ = .ok (d', result))) := by
  obtain ⟨hlen, hcached⟩ := Function.cached_of_prepareCache hf
  have hi : f.code[pc]? = some i := by
    rw [← List.head?_drop, hcode]
    rfl
  obtain ⟨op, hdec, hop⟩ := hcached pc i hi
  obtain ⟨hlt, he⟩ := List.getElem?_eq_some_iff.1 hop
  have hoperation : f.operation pc = .ok op := by
    rw [Function.operation, hi]
    exact hdec
  rw [prepareCode, hoperation] at h
  obtain ⟨op', ho, h⟩ := Except.bind_eq_ok.1 h
  obtain rfl : op = op' := Except.ok.inj ho
  obtain ⟨⟨d₁, r⟩, hp, h⟩ := Except.bind_eq_ok.1 h
  refine ⟨op, by rw [List.drop_eq_getElem_cons hlt, he], by rw [← List.tail_drop, hcode]; rfl, d₁, r,
    hp, ?_⟩
  cases r with
  | some k =>
    obtain ⟨rfl, rfl⟩ := Prod.mk.inj (Except.ok.inj h)
    exact .inl ⟨rfl, rfl⟩
  | none => exact .inr ⟨rfl, h⟩

/-- The pass over the code, against the loop over the cache of the same function. -/
theorem prepareCode_pass {f : Function} (hf : f.prepareCache = .ok f) {result : Nat}
    {code : List Instruction} {pc : Nat} (hcode : f.code.drop pc = code) (hd : d.Ok inputs)
    (h : prepareCode F f code pc d = .ok (d', result)) :
    Pass F inputs (f.cached.drop pc) d d' result := by
  induction code generalizing pc d with
  | nil => cases h
  | cons i code ih =>
    obtain ⟨op, hdrop, hnext, d₁, r, hp, hrest⟩ := prepareCode_cons hf hcode h
    rw [hdrop]
    rcases hrest with ⟨rfl, rfl⟩ | ⟨rfl, h⟩
    · exact pass_of_result hd hp
    · have hs := stepped_of_prepareOp (i := ⟨op, i.charged⟩) hd hp
      exact Pass.cons hs (ih hnext hs.ok h)

end

end Rnx.Columns
