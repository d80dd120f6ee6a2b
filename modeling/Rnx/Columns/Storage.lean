import Rnx.Columns.Blocks

/-!
# Shared scratch and storage of one's own

The placement a plan is prepared with lets computed nodes share slots.  `ownStorage` gives every
computed node a slot of its own instead.  Both placements are sound, so by `execute_spec` a block
publishes and fails in the same way with either of them.
-/

namespace Rnx.Columns

open Packed

/-! ## Outputs with the same lanes -/

/-- An output is its type, its room and its lanes. -/
lemma ColumnValues.ext_at {x y : ColumnValues} (htype : x.columnType = y.columnType)
    (hroom : x.room = y.room) (hat : ∀ q, x.at q = y.at q) : x = y := by
  have hwords : ∀ {v w : List Word}, v.length = w.length → (∀ q, v.getD q 0 = w.getD q 0) →
      v = w := by
    intro v w hl h
    refine List.ext_getElem hl fun q hv hw => ?_
    simpa [hv, hw] using h q
  cases x with
  | i64 v =>
    cases y with
    | i64 w => exact congrArg _ (hwords hroom hat)
    | f64 w => cases htype
    | bool w => cases htype
  | f64 v =>
    cases y with
    | i64 w => cases htype
    | f64 w => exact congrArg _ (hwords hroom hat)
    | bool w => cases htype
  | bool v =>
    cases y with
    | i64 w => cases htype
    | f64 w => cases htype
    | bool w =>
      have hl : 8 * v.length = 8 * w.length := hroom
      refine congrArg _ (eq_of_bitAt (by omega) fun q => ?_)
      have h : Columns.bool (bitAt v q) = Columns.bool (bitAt w q) := hat q
      rw [← bool_ne_zero (bitAt v q), h, bool_ne_zero]

/-- Two ways to overwrite an output with the same lanes give the same output. -/
lemma ColumnValues.Overwritten.unique {before x y : ColumnValues} {row n : Nat}
    {lane lane' : Nat → Word} (hx : before.Overwritten x row n lane)
    (hy : before.Overwritten y row n lane') (hlane : ∀ j, j < n → lane j = lane' j) : x = y := by
  refine ColumnValues.ext_at (hx.type.trans hy.type.symm) (hx.room.trans hy.room.symm) fun q => ?_
  rcases Nat.lt_or_ge q row with hlt | hge
  · rw [hx.outside q (.inl hlt), hy.outside q (.inl hlt)]
  · rcases Nat.lt_or_ge q (row + n) with hin | hout
    · obtain ⟨j, rfl⟩ := Nat.exists_eq_add_of_le hge
      rw [hx.inside j (by omega), hy.inside j (by omega), hlane j (by omega)]
    · rw [hx.outside q (.inr hout), hy.outside q (.inr hout)]

/-! ## Storage of one's own -/

/-- The plan with a slot of its own for every computed node but the result. -/
def ownStorage (p : PreparedColumn) : PreparedColumn :=
  { p with
    nodes := p.nodes.mapIdx fun i n =>
      { n with operand := if n.step.computes ∧ i ≠ p.result then .slot i else n.operand }
    scratchCount := p.nodes.length }

section

variable {p : PreparedColumn}

@[simp] lemma length_ownStorage (p : PreparedColumn) :
    (ownStorage p).nodes.length = p.nodes.length := by simp [ownStorage]

lemma nodeAt_ownStorage (p : PreparedColumn) {i : Nat} (hi : i < p.nodes.length) :
    nodeAt (ownStorage p).nodes i = { nodeAt p.nodes i with
      operand := if (nodeAt p.nodes i).step.computes ∧ i ≠ p.result then .slot i
        else (nodeAt p.nodes i).operand } := by
  simp [ownStorage, nodeAt, hi]

/-- Only the place of a node differs. -/
lemma same_ownStorage (p : PreparedColumn) {i : Nat} (hi : i < p.nodes.length) :
    (nodeAt (ownStorage p).nodes i).step = (nodeAt p.nodes i).step ∧
      (nodeAt (ownStorage p).nodes i).ty = (nodeAt p.nodes i).ty := by
  rw [nodeAt_ownStorage p hi]
  exact ⟨rfl, rfl⟩

lemma Housed.lane_ownStorage (h : Housed p) (F : FloatOps) (input : Nat → Word) {i : Nat}
    (hi : i < p.nodes.length) :
    lane F (ownStorage p).nodes input i = lane F p.nodes input i :=
  lane_congr F input (fun _ hk => same_ownStorage p hk)
    (fun k hk => TypedStep.deps_lt (h.typed k hk)) hi

lemma Housed.faulty_ownStorage (h : Housed p) (F : FloatOps) (input : Nat → Word) :
    Faulty F (ownStorage p).nodes input ↔ Faulty F p.nodes input := by
  constructor
  · rintro ⟨k, hk, hf⟩
    rw [length_ownStorage] at hk
    exact ⟨k, hk, by rwa [h.lane_ownStorage F input hk] at hf⟩
  · rintro ⟨k, hk, hf⟩
    exact ⟨k, by rwa [length_ownStorage], by rwa [h.lane_ownStorage F input hk]⟩

/-- The places of computed nodes are pairwise different. -/
lemma Housed.place_ownStorage (h : Housed p) {i k : Nat} (hi : i < p.nodes.length)
    (hk : k < p.nodes.length) (hci : (nodeAt p.nodes i).step.computes = true)
    (hck : (nodeAt p.nodes k).step.computes = true) (hne : i ≠ k) :
    (nodeAt (ownStorage p).nodes i).operand ≠ (nodeAt (ownStorage p).nodes k).operand := by
  rw [nodeAt_ownStorage p hi, nodeAt_ownStorage p hk]
  have hout : ∀ {a : Nat}, a < p.nodes.length → (nodeAt p.nodes a).step.computes = true →
      a = p.result → (nodeAt p.nodes a).operand = .output := fun ha hc hr => (h.fits _ ha).output hc hr
  dsimp only
  by_cases hri : i = p.result
  · rw [if_neg (fun hn => hn.2 hri), if_pos ⟨hck, fun hrk => hne (hri.trans hrk.symm)⟩,
      hout hi hci hri]
    simp
  · rw [if_pos ⟨hci, hri⟩]
    by_cases hrk : k = p.result
    · rw [if_neg (fun hn => hn.2 hrk), hout hk hck hrk]
      simp
    · rw [if_pos ⟨hck, hrk⟩]
      exact fun he => hne (Operand.slot.inj he)

/-- Storage of one's own is sound. -/
lemma Housed.ownStorage (h : Housed p) : Housed (Columns.ownStorage p) := by
  have hcomputes : ∀ {i : Nat}, i < p.nodes.length →
      (nodeAt (Columns.ownStorage p).nodes i).step.computes = true →
      (nodeAt p.nodes i).step.computes = true := by
    intro i hi hc
    rwa [(same_ownStorage p hi).1] at hc
  have howns : ∀ {a i : Nat}, a < p.nodes.length → i ≤ p.nodes.length →
      (nodeAt p.nodes a).step.computes = true →
      (placement (Columns.ownStorage p).nodes).Owns a i := by
    intro a i ha hi hca k hak hki hck
    exact h.place_ownStorage (by omega) ha (hcomputes (by omega) hck) hca (by omega)
  constructor
  case typed =>
    intro k hk
    rw [length_ownStorage] at hk
    have ht : TypedStep p.inputs p.nodes k _ _ := h.typed k hk
    obtain ⟨hstep, hty⟩ := same_ownStorage p hk
    change TypedStep p.inputs _ k _ _
    rw [hstep, hty]
    rcases hs : (nodeAt p.nodes k).step with c | v | ⟨op, a, b⟩ | a <;> rw [hs] at ht
    · exact ht
    · exact ht
    · obtain ⟨ha, hb, htab⟩ := ht
      exact ⟨ha, hb, by rw [(same_ownStorage p (by omega)).2, (same_ownStorage p (by omega)).2]
                        exact htab⟩
    · obtain ⟨ha, hta, htk⟩ := ht
      exact ⟨ha, by rw [(same_ownStorage p (by omega)).2]; exact hta, htk⟩
  case result_lt => rw [length_ownStorage]; exact h.result_lt
  case output => exact (same_ownStorage p h.result_lt).2.trans h.output
  case fits =>
    intro i hi
    rw [length_ownStorage] at hi
    have hf := h.fits i hi
    rw [nodeAt_ownStorage p hi]
    by_cases hc : (nodeAt p.nodes i).step.computes = true ∧ i ≠ p.result
    · rw [if_pos hc]
      exact Alloc.fits_computed hc.1 (fun hr => absurd hr hc.2) fun _ => ⟨i, hi, rfl⟩
    · rw [if_neg hc]
      exact ⟨hf.input, hf.constant, hf.output, fun hn hr => absurd ⟨hn, hr⟩ hc⟩
  case places =>
    intro i hi hc a ha hca
    change a ∈ (nodeAt (Columns.ownStorage p).nodes i).step.deps at ha
    rw [length_ownStorage] at hi
    rw [(same_ownStorage p hi).1] at ha
    have hai : a < i := TypedStep.deps_lt (h.typed i hi) a ha
    exact ⟨hai, howns (by omega) (by omega) (hcomputes (by omega) hca)⟩
  case keeps =>
    intro k hak hk hck
    change p.result < k at hak
    rw [length_ownStorage] at hk
    change (nodeAt _ k).operand ≠ (nodeAt _ p.result).operand
    by_cases hcr : (nodeAt p.nodes p.result).step.computes = true
    · exact h.place_ownStorage hk h.result_lt (hcomputes hk hck) hcr (by omega)
    · rw [nodeAt_ownStorage p hk, nodeAt_ownStorage p h.result_lt]
      dsimp only
      rw [if_pos ⟨hcomputes hk hck, by omega⟩, if_neg (fun hn => hn.2 rfl)]
      exact ((h.fits _ h.result_lt).result_ne k).symm

/-- A block publishes and fails in the same way when every node has storage of its own. -/
lemma Housed.execute_ownStorage (h : Housed p) (F : FloatOps) (e : Engine) {b : Block}
    (hb : b.Fits p.inputs) {mask : Option Word} (hm : mask.isSome = true → b.n ≤ 64)
    {scratch own : List Word} (hscratch : p.scratchCount * block ≤ scratch.length)
    (hown : p.nodes.length * block ≤ own.length) {values : ColumnValues}
    (hv : values.Holds p.output (b.row + b.n)) :
    ∃ s s', execute F e p b mask scratch values = .ok s ∧
      execute F e (Columns.ownStorage p) b mask own values = .ok s' ∧
      s.values = s'.values ∧ s.failed = s'.failed := by
  obtain ⟨s, hs, hover, hfailed⟩ := execute_spec (F := F) h hb hm e hscratch hv
  obtain ⟨s', hs', hover', hfailed'⟩ :=
    execute_spec (p := Columns.ownStorage p) (F := F) h.ownStorage hb hm e hown hv
  refine ⟨s, s', hs, hs', hover.unique hover' fun j _ => ?_, ?_⟩
  · unfold publishedLane
    rw [show (Columns.ownStorage p).result = p.result from rfl, h.lane_ownStorage F _ h.result_lt]
  · rw [Bool.eq_iff_iff, hfailed, hfailed']
    simp only [h.faulty_ownStorage]

end

/-! ## The allocation -/

/-- Node `a` is still needed from node `i` on. -/
def Needed (p : PreparedColumn) (a i : Nat) : Prop :=
  a = p.result ∨ ∃ k, i ≤ k ∧ k < p.nodes.length ∧ a ∈ (nodeAt p.nodes k).step.deps

/-- A node whose place is taken is not needed any more. -/
lemma Housed.not_needed (h : Housed p) {a i : Nat} (hai : a < i) (hi : i < p.nodes.length)
    (hca : (nodeAt p.nodes a).step.computes = true) (hci : (nodeAt p.nodes i).step.computes = true)
    (hplace : (nodeAt p.nodes a).operand = (nodeAt p.nodes i).operand) : ¬Needed p a i := by
  rintro (rfl | ⟨k, hik, hk, hread⟩)
  · exact h.keeps i hai hi hci hplace.symm
  · have hck : (nodeAt p.nodes k).step.computes = true := by
      cases hs : (nodeAt p.nodes k).step with
      | input c =>
        rw [hs] at hread
        simp [Step.deps] at hread
      | constant v =>
        rw [hs] at hread
        simp [Step.deps] at hread
      | binary op x y => rfl
      | not x => rfl
    obtain ⟨-, howns⟩ := h.places k hk hck a hread hca
    exact howns i hai (by omega) hci hplace.symm

theorem allocation_keeps_values {F : FloatOps} {L : Layout} {program : Program} {function : Nat}
    {inputs : List ColumnType} {output : ColumnType} {limit : Nat} {p : PreparedColumn}
    (h : prepare F L program function inputs output limit = .ok p) :
    (∀ a i, a < i → i < p.nodes.length → (nodeAt p.nodes a).step.computes = true →
      (nodeAt p.nodes i).step.computes = true →
      (nodeAt p.nodes a).operand = (nodeAt p.nodes i).operand → ¬Needed p a i) ∧
    (∀ i, i < p.nodes.length → (nodeAt p.nodes i).step.computes = true →
      ∀ a ∈ (nodeAt p.nodes i).step.deps, (nodeAt p.nodes i).operand ≠ (nodeAt p.nodes a).operand) ∧
    (∀ i, i < p.nodes.length → ((nodeAt p.nodes i).operand = .output ↔
      i = p.result ∧ (nodeAt p.nodes i).step.computes = true)) ∧
    (∀ i, i < p.nodes.length → ∀ t, (nodeAt p.nodes i).operand = .slot t → t < p.scratchCount) ∧
    ∀ (e : Engine) (b : Block) (mask : Option Word) (scratch own : List Word)
      (values : ColumnValues), b.Fits p.inputs → (mask.isSome = true → b.n ≤ 64) →
      p.scratchCount * block ≤ scratch.length → p.nodes.length * block ≤ own.length →
      values.Holds p.output (b.row + b.n) →
      ∃ s s', execute F e p b mask scratch values = .ok s ∧
        execute F e (ownStorage p) b mask own values = .ok s' ∧
        s.values = s'.values ∧ s.failed = s'.failed := by
  obtain ⟨-, -, f, -, hsound⟩ := prepare_sound h
  have hh := hsound.housed
  refine ⟨fun a i hai hi hca hci => hh.not_needed hai hi hca hci,
    fun i hi hc a ha => hh.place_ne hi hc ha, fun i hi => ?_, fun i hi t ht => ?_,
    fun e b mask scratch own values hb hm hs ho hv => hh.execute_ownStorage F e hb hm hs ho hv⟩
  · rcases hh.place_cases hi with ⟨c, hs, hp, -⟩ | ⟨v, hs, hp⟩ | ⟨-, hr, t, -, hp⟩ | ⟨hc, hr, hp⟩
    · simp [hs, hp, Step.computes]
    · simp [hs, hp, Step.computes]
    · simp [hr, hp]
    · exact iff_of_true hp ⟨hr, hc⟩
  · rcases hh.place_cases hi with ⟨c, -, hp, -⟩ | ⟨v, -, hp⟩ | ⟨-, -, t', ht', hp⟩ | ⟨-, -, hp⟩
    · simp [ht] at hp
    · simp [ht] at hp
    · rw [ht] at hp
      rwa [Operand.slot.inj hp]
    · simp [ht] at hp

/-! ### A plan with two slots -/

/-- `(x + y) * (x + y) - x`. -/
def squareFunction : Function where
  cached := [⟨.binary 2 .add 0 1, true⟩, ⟨.binary 3 .mul 2 2, true⟩, ⟨.binary 2 .sub 3 0, true⟩,
    ⟨.returnValue 2, true⟩]
  constants := []
  types := []
  ranges := []
  strings := []
  code := [⟨100, true, 2, 0, 1⟩, ⟨102, true, 3, 2, 2⟩, ⟨101, true, 2, 3, 0⟩, ⟨13, true, 2, 0, 0⟩]
  args := []
  slots := 4
  parameters := 2

/-- A program of it alone. -/
def squareProgram : Program where
  code := 0
  functions := [squareFunction]
  entryIneligible := []
  formattingGuard := 0
  cached := by
    intro f hf
    obtain rfl := List.mem_singleton.1 hf
    rfl

/-- Float operations for code without floats. -/
def noFloats : FloatOps where
  add a _ := a
  sub a _ := a
  mul a _ := a
  div a _ := a
  rem a _ := a
  neg a := a

/-- Its plan: the sum and its square in two slots, the difference in the output. -/
def squarePlan : PreparedColumn where
  code := 0
  function := 0
  inputs := [.i64, .i64]
  output := .i64
  nodes := [⟨.input 0, .i64, 0, .input 0⟩, ⟨.input 1, .i64, 0, .input 1⟩,
    ⟨.binary .add 0 1, .i64, 0, .slot 0⟩, ⟨.binary .mul 2 2, .i64, 1, .slot 1⟩,
    ⟨.binary .sub 3 0, .i64, 2, .output⟩]
  result := 4
  rowCharge := 4
  bytes := 6 * 32 + 160
  limit := 4096
  frameSlots := 4
  scratchCount := 2
  fast := none
  special := false
  booleanPlan := false

lemma prepare_square : prepare noFloats ⟨160, 32, 160⟩ squareProgram 0 [.i64, .i64] .i64 4096
    = .ok squarePlan := rfl
/-- Two rows of two columns. -/
def squareBlock : Block := ⟨[(.i64 [1, 2], 0), (.i64 [3, 4], 0)], 0, 2⟩

lemma squareBlock_fits : squareBlock.Fits squarePlan.inputs := by
  refine ⟨by decide, by decide, fun c ty hc => ?_⟩
  match c with
  | 0 => exact ⟨.i64 [1, 2], 0, rfl, Option.some.inj hc, by decide⟩
  | 1 => exact ⟨.i64 [3, 4], 0, rfl, Option.some.inj hc, by decide⟩
  | _ + 2 => cases hc

theorem allocation_keeps_values_square :
    ∃ s s', execute noFloats ⟨true⟩ squarePlan squareBlock none (List.replicate 2048 7)
        (.i64 [0, 0]) = .ok s ∧
      execute noFloats ⟨true⟩ (ownStorage squarePlan) squareBlock none (List.replicate 5120 7)
        (.i64 [0, 0]) = .ok s' ∧
      s.values = s'.values ∧ s.failed = s'.failed :=
  (allocation_keeps_values prepare_square).2.2.2.2 ⟨true⟩ squareBlock none _ _ _ squareBlock_fits
    (fun h => nomatch h) (by rw [List.length_replicate]; decide)
    (by rw [List.length_replicate]; decide)
    ⟨rfl, by decide, by decide⟩

end Rnx.Columns
