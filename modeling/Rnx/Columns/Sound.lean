import Rnx.Columns.Drafts
import Rnx.Columns.Places

/-!
# What a prepared plan is good for

`Sound` collects everything the traversals rely on: typed nodes, places that hold what is read
from them, a classification that describes the nodes, and the interpreter's result and charge on
every row.  A plan that `prepare` accepts is sound (`prepare_sound`).
-/

namespace Rnx.Columns

open Exec

/-! ## Rows -/

/-- The arguments of a row. -/
def rowArgs (inputs : List ColumnType) (input : Nat → Word) : List Value :=
  inputs.mapIdx fun c ty => toValue ty (input c)

@[simp] lemma length_rowArgs (inputs : List ColumnType) (input : Nat → Word) :
    (rowArgs inputs input).length = inputs.length := by simp [rowArgs]

/-- A plan of a function that computes what the function's instructions compute. -/
structure Sound (F : FloatOps) (f : Function) (p : PreparedColumn) : Prop where
  arity : 1 ≤ p.inputs.length ∧ p.inputs.length ≤ 3
  parameters : f.parameters = p.inputs.length
  frame : p.frameSlots = f.slots
  typed : Typed p.inputs p.nodes
  result_lt : p.result < p.nodes.length
  output : (nodeAt p.nodes p.result).ty = p.output
  fits : ∀ i, i < p.nodes.length →
    Alloc.Fits p.result i p.scratchCount (nodeAt p.nodes i) (nodeAt p.nodes i).operand
  places : (placement p.nodes).Sound p.nodes.length
  keeps : (placement p.nodes).Owns p.result p.nodes.length
  fast : p.fast = Columns.fast p.nodes p.result
  boolean : p.booleanPlan = true → ∀ k, k < p.nodes.length →
    (nodeAt p.nodes k).ty = .bool ∧ Draft.booleanStep (nodeAt p.nodes k).step = true
  special : p.special = true → p.booleanPlan = true ∨
    (∀ k, k < p.nodes.length →
      (nodeAt p.nodes k).ty = .f64 ∧ Draft.f64Step (nodeAt p.nodes k).step = true) ∨
    (p.output = .bool ∧ ∀ k, k < p.nodes.length →
      Draft.predicateStep p.nodes (nodeAt p.nodes k).step = true)
  runs : ∀ limits : ExecutorLimits, 1 ≤ limits.frames → f.slots ≤ limits.slots →
    ∀ input, TypedRow p.inputs input → ¬Faulty F p.nodes input → ∀ fuel,
      invoke F limits f (rowArgs p.inputs input) fuel =
        if p.rowCharge ≤ fuel then
          .ok (toValue p.output (lane F p.nodes input p.result).1, fuel - p.rowCharge)
        else .error .fuelExhausted
  faults : ∀ limits : ExecutorLimits, 1 ≤ limits.frames → f.slots ≤ limits.slots →
    ∀ input, TypedRow p.inputs input → Faulty F p.nodes input → ∀ fuel, ∃ e,
      invoke F limits f (rowArgs p.inputs input) fuel = .error e

/-! ## The first draft -/

section

variable {F : FloatOps} {inputs : List ColumnType} {slots : Nat} {d : Draft}

lemma inputDraft_nodes (h : inputDraft slots inputs = .ok d) :
    inputs.length ≤ slots ∧ d.nodes = inputs.mapIdx (fun i ty => ⟨.input i, ty, 0, .input i⟩) ∧
      d.slots = ((List.range slots).map fun i => if i < inputs.length then some i else none) := by
  unfold inputDraft at h
  split at h
  · cases h
  · obtain rfl := Except.ok.inj h
    exact ⟨by omega, rfl, rfl⟩

lemma nodeAt_inputDraft (h : inputDraft slots inputs = .ok d) {k : Nat} {ty : ColumnType}
    (hk : inputs[k]? = some ty) : nodeAt d.nodes k = ⟨.input k, ty, 0, .input k⟩ := by
  rw [(inputDraft_nodes h).2.1, nodeAt, List.getD_eq_getElem?_getD, List.getElem?_mapIdx, hk]
  rfl

lemma length_inputDraft (h : inputDraft slots inputs = .ok d) : d.nodes.length = inputs.length := by
  rw [(inputDraft_nodes h).2.1, List.length_mapIdx]

lemma slots_inputDraft (h : inputDraft slots inputs = .ok d) {s k : Nat}
    (hs : d.slots[s]? = some (some k)) : s = k ∧ k < inputs.length := by
  rw [(inputDraft_nodes h).2.2] at hs
  rcases Nat.lt_or_ge s slots with hlt | hge
  · simp only [List.getElem?_map, List.getElem?_range hlt, Option.map_some, Option.some.injEq] at hs
    split at hs
    · rename_i hl
      obtain rfl := Option.some.inj hs
      exact ⟨rfl, hl⟩
    · cases hs
  · rw [List.getElem?_eq_none (by simpa using hge)] at hs
    cases hs

lemma inputDraft_ok (h : inputDraft slots inputs = .ok d) : d.Ok inputs := by
  have hn : ∀ k, k < d.nodes.length → ∃ ty, inputs[k]? = some ty ∧
      nodeAt d.nodes k = ⟨.input k, ty, 0, .input k⟩ := by
    intro k hk
    rw [length_inputDraft h] at hk
    exact ⟨inputs[k], List.getElem?_eq_getElem hk, nodeAt_inputDraft h (List.getElem?_eq_getElem hk)⟩
  have hall : ∀ ty, (inputs.all fun t => decide (t = ty)) = true → ∀ k, k < d.nodes.length →
      (nodeAt d.nodes k).ty = ty ∧ ∃ c, (nodeAt d.nodes k).step = .input c := by
    intro ty hty k hk
    obtain ⟨t, ht, hk⟩ := hn k hk
    rw [hk]
    exact ⟨by simpa using List.all_eq_true.1 hty t (List.mem_of_getElem? ht), k, rfl⟩
  have hflags : d.booleanPlan = (inputs.all fun t => decide (t = .bool)) ∧
      d.f64Plan = (inputs.all fun t => decide (t = .f64)) := by
    unfold inputDraft at h
    split at h
    · cases h
    · obtain rfl := Except.ok.inj h
      exact ⟨rfl, rfl⟩
  refine ⟨fun k hk => ?_, fun s k hs => ?_, fun hb k hk => ?_, fun hb k hk => ?_, fun _ k hk => ?_⟩
  · obtain ⟨ty, hty, hnode⟩ := hn k hk
    unfold TypedNode
    rw [hnode]
    exact hty
  · rw [length_inputDraft h]
    exact (slots_inputDraft h hs).2
  · obtain ⟨hty, c, hc⟩ := hall .bool (by rw [← hflags.1, hb]) k hk
    exact ⟨hty, by rw [hc]; rfl⟩
  · obtain ⟨hty, c, hc⟩ := hall .f64 (by rw [← hflags.2, hb]) k hk
    exact ⟨hty, by rw [hc]; rfl⟩
  · obtain ⟨ty, -, hnode⟩ := hn k hk
    rw [hnode]
    rfl

lemma lane_inputDraft (h : inputDraft slots inputs = .ok d) (input : Nat → Word) {k : Nat}
    (hk : k < d.nodes.length) : lane F d.nodes input k = (input k, false) := by
  have hlt : k < inputs.length := by rwa [length_inputDraft h] at hk
  rw [lane_of_typed (inputDraft_ok h).typed hk,
    nodeAt_inputDraft h (List.getElem?_eq_getElem hlt)]
  rfl

/-- The frame of a row is tracked at the start, and no input faults. -/
lemma inputDraft_tracks (h : inputDraft slots inputs = .ok d) (input : Nat → Word) :
    d.Tracks F input
      (rowArgs inputs input ++ List.replicate (slots - (rowArgs inputs input).length) .unit) ∧
    ¬Faulty F d.nodes input := by
  refine ⟨⟨?_, fun s k hs => ?_⟩, fun ⟨k, hk, hf⟩ => ?_⟩
  · have := (inputDraft_nodes h).1
    rw [(inputDraft_nodes h).2.2]
    simp
    omega
  · obtain ⟨rfl, hlt⟩ := slots_inputDraft h hs
    rw [lane_inputDraft h input (by rwa [length_inputDraft h]),
      nodeAt_inputDraft h (List.getElem?_eq_getElem hlt), List.getElem?_append_left (by simpa),
      rowArgs, List.getElem?_mapIdx, List.getElem?_eq_getElem hlt]
    rfl
  · rw [lane_inputDraft h input hk] at hf
    cases hf

end

/-! ## Preparation -/

/-- What `prepare` did when it accepted a function. -/
lemma prepare_eq {F : FloatOps} {L : Layout} {program : Program} {function : Nat}
    {inputs : List ColumnType} {output : ColumnType} {limit : Nat} {p : PreparedColumn}
    (h : prepare F L program function inputs output limit = .ok p) :
    (1 ≤ inputs.length ∧ inputs.length ≤ 3) ∧ ∃ f, program.function function = some f ∧
      f.parameters = inputs.length ∧ ∃ start d result bytes, inputDraft f.slots inputs = .ok start ∧
      prepareCode F f f.code 0 start = .ok (d, result) ∧ (nodeAt d.nodes result).ty = output ∧
      p =
        { code := program.code
          function := function
          inputs := inputs
          output := output
          nodes := place d.nodes (allocate d.nodes result).operands
          result := result
          rowCharge := d.rowCharge
          bytes := bytes
          limit := limit
          frameSlots := f.slots
          scratchCount := (allocate d.nodes result).count
          fast := Columns.fast (place d.nodes (allocate d.nodes result).operands) result
          special := (d.booleanPlan && d.booleanPair) ||
            (d.f64Plan && decide (2 ≤ d.f64Operations)) ||
            (d.predicatePlan && d.numericComparison && decide (output = .bool))
          booleanPlan := d.booleanPlan && d.booleanPair } := by
  unfold prepare at h
  split at h
  · cases h
  · split at h
    · cases h
    · rename_i harity
      split at h
      · cases h
      · rename_i f hf
        split at h
        · cases h
        · rename_i hparams
          obtain ⟨⟨bytes, occupied⟩, -, h⟩ := Except.bind_eq_ok.1 h
          obtain ⟨start, hstart, h⟩ := Except.bind_eq_ok.1 h
          obtain ⟨⟨d, result⟩, hcode, h⟩ := Except.bind_eq_ok.1 h
          dsimp only at h
          split at h
          · cases h
          · rename_i hty
            obtain ⟨-, -, h⟩ := Except.bind_eq_ok.1 h
            exact ⟨not_not.1 harity, f, hf, not_not.1 hparams, start, d, result, bytes, hstart, hcode,
              not_not.1 hty, (Except.ok.inj h).symm⟩

section

variable {F : FloatOps} {inputs : List ColumnType} {nodes placed : List Node} {result count : Nat}

lemma Placed.typed (hp : Placed nodes placed result count) (ht : Typed inputs nodes) :
    Typed inputs placed := by
  intro k hk
  rw [hp.length] at hk
  have hn : TypedStep inputs nodes k _ _ := ht k hk
  obtain ⟨hstep, hty, -⟩ := hp.node k hk
  unfold TypedNode
  rw [hstep, hty]
  rcases hs : (nodeAt nodes k).step with c | v | ⟨op, a, b⟩ | a <;> rw [hs] at hn
  · exact hn
  · exact hn
  · obtain ⟨ha, hb, htab⟩ := hn
    exact ⟨ha, hb, by rw [(hp.node a (by omega)).2.1, (hp.node b (by omega)).2.1]; exact htab⟩
  · obtain ⟨ha, hta, htk⟩ := hn
    exact ⟨ha, by rw [(hp.node a (by omega)).2.1]; exact hta, htk⟩

lemma Placed.lane (hp : Placed nodes placed result count) (ht : Typed inputs nodes)
    (input : Nat → Word) {k : Nat} (hk : k < nodes.length) :
    lane F placed input k = lane F nodes input k :=
  lane_congr F input (fun k hk => ⟨(hp.node k hk).1, (hp.node k hk).2.1⟩)
    (fun k hk => TypedStep.deps_lt (ht k hk)) hk

lemma Placed.faulty_iff (hp : Placed nodes placed result count) (ht : Typed inputs nodes)
    (input : Nat → Word) : Faulty F placed input ↔ Faulty F nodes input := by
  constructor
  · rintro ⟨k, hk, hf⟩
    rw [hp.length] at hk
    exact ⟨k, hk, by rwa [hp.lane ht input hk] at hf⟩
  · rintro ⟨k, hk, hf⟩
    exact ⟨k, by rwa [hp.length], by rwa [hp.lane ht input hk]⟩

lemma Placed.predicateStep (hp : Placed nodes placed result count) (ht : Typed inputs nodes)
    {k : Nat} (hk : k < nodes.length) :
    Draft.predicateStep placed (nodeAt placed k).step
      = Draft.predicateStep nodes (nodeAt nodes k).step := by
  have hd := TypedStep.deps_lt (ht k hk)
  rw [(hp.node k hk).1]
  rcases hs : (nodeAt nodes k).step with c | v | ⟨op, a, b⟩ | a
  · rfl
  · rfl
  · rw [hs] at hd
    have ha : a < k := hd a (by simp [Step.deps])
    unfold Draft.predicateStep
    dsimp only
    rw [(hp.node a (by omega)).2.1]
  · rfl

end

/-- The loop of `invoke` on a row. -/
lemma invoke_rowArgs {F : FloatOps} {limits : ExecutorLimits} {f : Function}
    {inputs : List ColumnType} (hp : f.parameters = inputs.length) (hs : inputs.length ≤ f.slots)
    (hframes : 1 ≤ limits.frames) (hslots : f.slots ≤ limits.slots) (input : Nat → Word)
    (fuel : Nat) : invoke F limits f (rowArgs inputs input) fuel
      = loop F f.cached (rowArgs inputs input ++
          List.replicate (f.slots - (rowArgs inputs input).length) .unit) fuel := by
  unfold invoke
  rw [if_neg (by simp [hp]), if_neg (by omega), if_neg (by rw [length_rowArgs]; omega)]

theorem prepare_sound {F : FloatOps} {L : Layout} {program : Program} {function : Nat}
    {inputs : List ColumnType} {output : ColumnType} {limit : Nat} {p : PreparedColumn}
    (h : prepare F L program function inputs output limit = .ok p) :
    p.inputs = inputs ∧ p.output = output ∧
      ∃ f, program.function function = some f ∧ Sound F f p := by
  obtain ⟨harity, f, hf, hparams, start, d, result, bytes, hstart, hcode, hty, rfl⟩ := prepare_eq h
  have hcached := program.cached f (List.mem_of_getElem? hf)
  have hpass := prepareCode_pass hcached (List.drop_zero) (inputDraft_ok hstart) hcode
  have hok := hpass.ok
  have hslots := (inputDraft_nodes hstart).1
  have hplaced : Placed d.nodes _ result _ :=
    allocate_sound fun i hi => TypedStep.deps_lt (hok.typed i hi)
  have hcharge : start.rowCharge = 0 := by
    unfold inputDraft at hstart
    split at hstart
    · cases hstart
    · obtain rfl := Except.ok.inj hstart
      rfl
  have hresult := hplaced.node result hpass.result_lt
  refine ⟨rfl, rfl, f, hf, ?_⟩
  constructor
  case arity => exact harity
  case parameters => exact hparams
  case frame => rfl
  case typed => exact hplaced.typed hok.typed
  case result_lt => exact hplaced.length ▸ hpass.result_lt
  case output => exact hresult.2.1.trans hty
  case fits => exact fun i hi => hplaced.fits i (hplaced.length ▸ hi)
  case places => exact hplaced.length ▸ hplaced.sound
  case keeps => exact hplaced.length ▸ hplaced.keeps
  case fast => rfl
  case boolean =>
    intro hb k hk
    have hk : k < d.nodes.length := hplaced.length ▸ hk
    rw [(hplaced.node k hk).1, (hplaced.node k hk).2.1]
    exact hok.boolean (Bool.and_eq_true _ _ ▸ hb).1 k hk
  case special =>
    intro hs
    simp only [Bool.or_eq_true, Bool.and_eq_true, decide_eq_true_eq] at hs
    rcases hs with (⟨hb, hp⟩ | ⟨hfl, -⟩) | ⟨⟨hpr, -⟩, hout⟩
    · exact .inl (by simp [hb, hp])
    · refine .inr (.inl fun k hk => ?_)
      have hk : k < d.nodes.length := hplaced.length ▸ hk
      rw [(hplaced.node k hk).1, (hplaced.node k hk).2.1]
      exact hok.floats hfl k hk
    · refine .inr (.inr ⟨hout, fun k hk => ?_⟩)
      have hk : k < d.nodes.length := hplaced.length ▸ hk
      rw [hplaced.predicateStep hok.typed hk]
      exact hok.predicate hpr k hk
  case runs =>
    intro limits hframes hlim input hrow hfault fuel
    dsimp only at hrow hfault ⊢
    rw [hplaced.faulty_iff hok.typed] at hfault
    rw [hplaced.lane hok.typed input hpass.result_lt,
      invoke_rowArgs hparams hslots hframes hlim]
    have := hpass.runs input _ hrow (inputDraft_tracks hstart input).1 hfault fuel
    rwa [List.drop_zero, hcharge, Nat.sub_zero, hty] at this
  case faults =>
    intro limits hframes hlim input hrow hfault fuel
    dsimp only at hrow hfault ⊢
    rw [hplaced.faulty_iff hok.typed] at hfault
    rw [invoke_rowArgs hparams hslots hframes hlim]
    have hstartfault := inputDraft_tracks (F := F) hstart input
    exact hpass.faults input _ hrow hstartfault.1 hstartfault.2 hfault fuel

end Rnx.Columns
