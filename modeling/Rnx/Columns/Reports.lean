import Rnx.Columns.Shapes

/-!
# What an attempt on a block reports

Every traversal goes on past a block exactly when row-by-row evaluation of the selected rows
succeeds, and otherwise reports the first of them that overflows and the instruction at which it
does (`blocks_report_first_fault`).
-/

namespace Rnx.Columns

open Packed Exec

/-- Row-by-row evaluation of row `j` returns, at the price of the plan's charge. -/
def Block.Evaluates (F : FloatOps) (f : Function) (p : PreparedColumn) (b : Block) (j : Nat) :
    Prop :=
  ∀ limits : ExecutorLimits, 1 ≤ limits.frames → f.slots ≤ limits.slots → ∀ fuel,
    p.rowCharge ≤ fuel → ∃ value,
      invoke F limits f (rowArgs p.inputs (b.input j)) fuel = .ok (value, fuel - p.rowCharge)

/-- Row-by-row evaluation of row `j` ends with an overflow at the instruction at `pc`, given fuel
for every instruction. -/
def Block.Overflows (F : FloatOps) (f : Function) (p : PreparedColumn) (b : Block) (j pc : Nat) :
    Prop :=
  ∀ limits : ExecutorLimits, 1 ≤ limits.frames → f.slots ≤ limits.slots → ∀ fuel,
    f.cached.length ≤ fuel → ∃ e : PrimitiveError, e.kind = .overflow ∧
      loopAt F f.cached (rowFrame f p.inputs (b.input j)) fuel 0 = .error (.primitive e, pc) ∧
      invoke F limits f (rowArgs p.inputs (b.input j)) fuel = .error (.primitive e)

/-- The outcome of a block: past it when every selected row evaluates, else an arithmetic replay
with the first selected row that overflows and its instruction. -/
def Block.Reports (F : FloatOps) (f : Function) (p : PreparedColumn) (b : Block)
    (mask : Option Word) {α : Type} (m : Except Stop α) : Prop :=
  ((∃ done, m = .ok done) ∧ ∀ j, j < b.n → selects mask j = true → b.Evaluates F f p j) ∨
    ∃ j pc, m = .error (.replay .arithmetic (some ⟨b.row + j, pc⟩)) ∧ j < b.n ∧
      selects mask j = true ∧ b.Overflows F f p j pc ∧
      ∀ i, i < j → selects mask i = true → b.Evaluates F f p i

section

variable {F : FloatOps} {p : PreparedColumn} {b : Block}

lemma Sound.evaluates {f : Function} (h : Sound F f p) (hb : b.Fits p.inputs) {j : Nat}
    (hn : ¬Faulty F p.nodes (b.input j)) : b.Evaluates F f p j := by
  intro limits hframes hslots fuel hfuel
  have := h.runs limits hframes hslots _ (hb.typedRow j) hn fuel
  rw [if_pos hfuel] at this
  exact ⟨_, this⟩

/-- An exact outcome in terms of row-by-row evaluation. -/
lemma reports_of_exact {L : Layout} {program : Program} {function : Nat}
    {inputs : List ColumnType} {output : ColumnType} {limit : Nat}
    (h : prepare F L program function inputs output limit = .ok p) {f : Function}
    (hf : program.function function = some f) (hsound : Sound F f p) (hin : p.inputs = inputs)
    (hb : b.Fits p.inputs) {mask : Option Word} {α : Type} {m : Except Stop α}
    (hm : b.Exact F p mask m) : b.Reports F f p mask m := by
  rcases hm with ⟨hn, hdone⟩ | ⟨j, k, hfirst, hm⟩
  · exact .inl ⟨hdone, fun j hj hsel => hsound.evaluates hb fun hfault => hn ⟨j, hj, hsel, hfault⟩⟩
  · refine .inr ⟨j, _, hm, hfirst.row, hfirst.selected, ?_, fun i hi hsel =>
      hsound.evaluates hb (hfirst.before i hi hsel)⟩
    intro limits hframes hslots fuel hfuel
    subst hin
    obtain ⟨e, hkind, hloop⟩ :=
      prepare_overflows h hf (hb.typedRow j) hfirst.node fuel hfuel
    refine ⟨e, hkind, hloop, ?_⟩
    obtain ⟨-, f', hf', -, start, -, -, -, hstart, -⟩ := prepare_eq h
    obtain rfl : f' = f := Option.some.inj (hf'.symm.trans hf)
    rw [invoke_rowArgs hsound.parameters (inputDraft_nodes hstart).1 hframes hslots,
      ← loopAt_mapError _ _ _ _ 0]
    change ((loopAt F f'.cached (rowFrame f' p.inputs (b.input j)) fuel 0).mapError Prod.fst) = _
    rw [hloop]
    rfl

/-- A fault comes from the arithmetic of integers. -/
lemma binary_fault {op : Binary} {ty : ColumnType} {x y : Word}
    (h : (binary F op ty x y).2 = true) : ty = .i64 ∧ isArithmetic op = true := by
  cases ty <;> cases op <;> first | exact ⟨rfl, rfl⟩ | cases h

/-- A plan with a driver of its own never faults. -/
lemma Sound.special_clean {f : Function} (h : Sound F f p) (hs : p.special = true)
    (input : Nat → Word) : ¬Faulty F p.nodes input := by
  rintro ⟨k, hk, hf⟩
  have ht : TypedStep p.inputs p.nodes k _ _ := h.typed k hk
  cases hstep : (nodeAt p.nodes k).step with
  | input c =>
    rw [lane_of_typed h.typed hk, hstep] at hf
    cases hf
  | constant v =>
    rw [lane_of_typed h.typed hk, hstep] at hf
    cases hf
  | not x =>
    rw [lane_of_typed h.typed hk, hstep] at hf
    cases hf
  | binary op x y =>
    rw [lane_of_typed h.typed hk, hstep] at hf
    rw [hstep] at ht
    obtain ⟨hty, harith⟩ := binary_fault hf
    have hx : x < p.nodes.length := Nat.lt_trans ht.1 hk
    rcases h.special hs with hb | hfl | ⟨-, hpr⟩
    · rw [(h.boolean hb x hx).1] at hty
      cases hty
    · rw [(hfl x hx).1] at hty
      cases hty
    · have hstep' := hpr k hk
      rw [hstep] at hstep'
      unfold Draft.predicateStep at hstep'
      dsimp only at hstep'
      rw [hty] at hstep'
      cases op <;>
        first
        | exact absurd harith Bool.false_ne_true
        | exact absurd hstep' Bool.false_ne_true

lemma valid_lowMask {n j : Nat} (hn : n ≤ 64) (hj : j < n) : valid (lowMask n) j = true := by
  rw [valid_eq, lowMask, if_neg (by omega), BitVec.getLsbD_ushiftRight, BitVec.getLsbD_allOnes]
  exact decide_eq_true (by omega)

lemma exact_bind {α β : Type} {mask : Option Word} {m : Except Stop α} {a : α}
    {next : α → Except Stop β} (hm : m = .ok a) (hnext : b.Exact F p mask (next a)) :
    b.Exact F p mask (m >>= next) := by
  rw [hm]
  exact hnext

/-- A block of `run`. -/
lemma exact_dense {f : Function} (h : Sound F f p) (hb : b.Fits p.inputs) (e : Engine)
    {scratch rowValues : List Word} {values : ColumnValues}
    (hlen : b.Faulty F p none → rowValues.length = p.nodes.length)
    (hscratch : p.scratchCount * block ≤ scratch.length)
    (hv : values.Holds p.output (b.row + b.n)) :
    b.Exact F p none (denseBlock F e p b scratch rowValues values) := by
  obtain ⟨s, hs, -, hfailed⟩ := @execute_spec F p b none h.housed hb
    (fun hm => nomatch hm) e scratch hscratch values hv
  have hgeneral : b.Exact F p none (do
      let s ← execute F e p b none scratch values
      report F p b none rowValues s.failed s) :=
    exact_bind hs (exact_report h.typed hb hlen hfailed s)
  unfold denseBlock
  cases hfast : p.fast with
  | none => exact hgeneral
  | some shape =>
    have hshape := shape_of_fast (h.fast.symm.trans hfast)
    obtain ⟨r, hr, hflag⟩ := denseFast_spec (F := F) h.housed hshape hb hv e
    refine exact_bind hr ?_
    rcases r with - | ⟨after, failed⟩
    · exact hgeneral
    · exact exact_report h.typed hb hlen (hflag after failed rfl) _

/-- A mask word of `run_masked`. -/
lemma exact_masked {f : Function} (h : Sound F f p) (hb : b.Fits p.inputs) (hn : b.n ≤ 64)
    (e : Engine) {m : Word} {scratch rowValues : List Word} {values : ColumnValues}
    (hlen : b.Faulty F p (some m) → rowValues.length = p.nodes.length)
    (hover : ∀ shape, p.fast = some shape → shape.overflows = true)
    (hscratch : p.scratchCount * block ≤ scratch.length)
    (hv : values.Holds p.output (b.row + b.n)) :
    b.Exact F p (some m) (maskedBlock F e p b m scratch rowValues values) := by
  unfold maskedBlock
  split
  · rename_i hzero
    refine .inl ⟨?_, _, rfl⟩
    rintro ⟨j, -, hsel, -⟩
    have hvalid : valid m j = true := hsel
    rw [hzero, valid_eq] at hvalid
    simp at hvalid
  · have hall : decide (m = lowMask b.n) = true → ∀ j, j < b.n → selects (some m) j = true := by
      intro he j hj
      have hv := valid_lowMask hn hj
      rwa [← of_decide_eq_true he] at hv
    cases hfast : p.fast with
    | none =>
      -- Without null rows the block runs without a mask; the flag means the same.
      have hexec : ∃ s, execute F e p b (if decide (m = lowMask b.n) then none else some m) scratch
          values = .ok s ∧ (s.failed = true ↔ b.Faulty F p (some m)) := by
        by_cases he : m = lowMask b.n
        · obtain ⟨s, hs, -, hfailed⟩ := @execute_spec F p b none h.housed hb
            (fun hm => nomatch hm) e scratch hscratch values hv
          refine ⟨s, by rw [decide_eq_true he]; exact hs, hfailed.trans ?_⟩
          constructor
          · rintro ⟨j, hj, -, hf⟩
            exact ⟨j, hj, hall (decide_eq_true he) j hj, hf⟩
          · rintro ⟨j, hj, -, hf⟩
            exact ⟨j, hj, rfl, hf⟩
        · obtain ⟨s, hs, -, hfailed⟩ := @execute_spec F p b (some m) h.housed hb
            (fun _ => hn) e scratch hscratch values hv
          exact ⟨s, by rw [decide_eq_false he]; exact hs, hfailed⟩
      obtain ⟨s, hs, hfailed⟩ := hexec
      exact exact_bind hs (exact_report h.typed hb hlen hfailed s)
    | some shape =>
      have hshape := shape_of_fast (h.fast.symm.trans hfast)
      obtain ⟨after, failed, hr, hflag⟩ :=
        maskedFast_spec (F := F) h.housed hshape (hover shape hfast) hb hv e hall
      exact exact_bind hr
        (exact_report h.typed hb hlen hflag (Running.mk scratch after failed e.avx2))

/-- A block of `run_flat`. -/
lemma exact_flat {f : Function} (h : Sound F f p) (hb : b.Fits p.inputs) (e : Engine)
    {rowValues : List Word} {out : NumericOutput}
    (hlen : b.Faulty F p none → rowValues.length = p.nodes.length)
    (hfast : ∃ shape, p.fast = some shape ∧ ∀ i, shape ≠ .boolNot i)
    (hroom : b.n ≤ out.len - out.written.length) :
    b.Exact F p none (flatBlock F e p b rowValues out) := by
  obtain ⟨shape, hfast, hnot⟩ := hfast
  have hshape := shape_of_fast (h.fast.symm.trans hfast)
  obtain ⟨r, hr, hl, hflag⟩ := flatFast_spec (F := F) h.housed hshape hfast hnot hb e
  have hwrite : out.write r.1 = .ok { out with written := out.written ++ r.1 } := by
    rw [NumericOutput.write, if_neg (by omega)]
  exact exact_bind hr (exact_bind hwrite (exact_report h.typed hb hlen hflag _))

end

theorem blocks_report_first_fault {F : FloatOps} {L : Layout} {program : Program} {function : Nat}
    {inputs : List ColumnType} {output : ColumnType} {limit : Nat} {p : PreparedColumn}
    (h : prepare F L program function inputs output limit = .ok p) :
    ∃ f, program.function function = some f ∧
      ∀ (e : Engine) (b : Block) (rowValues : List Word), b.Fits p.inputs →
        rowValues.length = (if p.special then 0 else p.nodes.length) →
        (∀ (scratch : List Word) (values : ColumnValues),
          p.scratchCount * block ≤ scratch.length → values.Holds p.output (b.row + b.n) →
          b.Reports F f p none (denseBlock F e p b scratch rowValues values)) ∧
        (∀ (mask : Word) (scratch : List Word) (values : ColumnValues), b.n ≤ 64 →
          (∀ shape, p.fast = some shape → shape.overflows = true) →
          p.scratchCount * block ≤ scratch.length → values.Holds p.output (b.row + b.n) →
          b.Reports F f p (some mask) (maskedBlock F e p b mask scratch rowValues values)) ∧
        (∀ out : NumericOutput, (∃ shape, p.fast = some shape ∧ ∀ i, shape ≠ .boolNot i) →
          b.n ≤ out.len - out.written.length →
          b.Reports F f p none (flatBlock F e p b rowValues out)) ∧
        ((p.special = true ∨ ∃ shape, p.fast = some shape ∧ shape.overflows = false) →
          ∀ j, b.Evaluates F f p j) := by
  obtain ⟨hin, -, f, hf, hs⟩ := prepare_sound h
  refine ⟨f, hf, fun e b rowValues hb hrows => ?_⟩
  have hlen : ∀ {mask}, b.Faulty F p mask → rowValues.length = p.nodes.length := by
    rintro mask ⟨j, -, -, hfault⟩
    rw [hrows, if_neg]
    exact fun hspecial => hs.special_clean hspecial _ hfault
  have hreport : ∀ {mask : Option Word} {α : Type} {m : Except Stop α},
      b.Exact F p mask m → b.Reports F f p mask m :=
    fun hm => reports_of_exact h hf hs hin hb hm
  refine ⟨fun scratch values hscratch hv => ?_, fun mask scratch values hn hover hscratch hv => ?_,
    fun out hfast hroom => ?_, fun hclean j => hs.evaluates hb ?_⟩
  · exact hreport (exact_dense hs hb e hlen hscratch hv)
  · exact hreport (exact_masked hs hb hn e hlen hover hscratch hv)
  · exact hreport (exact_flat hs hb e hlen hfast hroom)
  · rcases hclean with hspecial | ⟨shape, hfast, hover⟩
    · exact hs.special_clean hspecial _
    · rw [faulty_iff_fast hs.housed (shape_of_fast (hs.fast.symm.trans hfast))]
      cases shape <;> first | exact Bool.false_ne_true | cases hover

/-- Two rows, of which the sum of the second overflows. -/
def overflowingBlock : Block := ⟨[(.i64 [1, BitVec.intMax 64], 0), (.i64 [3, 1], 0)], 0, 2⟩

lemma overflowingBlock_fits : overflowingBlock.Fits squarePlan.inputs := by
  refine ⟨by decide, by decide, fun c ty hc => ?_⟩
  match c with
  | 0 => exact ⟨.i64 [1, BitVec.intMax 64], 0, rfl, Option.some.inj hc, by decide⟩
  | 1 => exact ⟨.i64 [3, 1], 0, rfl, Option.some.inj hc, by decide⟩
  | _ + 2 => cases hc

theorem blocks_report_first_fault_square :
    ∃ f, squareProgram.function 0 = some f ∧
      overflowingBlock.Reports noFloats f squarePlan none (denseBlock noFloats ⟨true⟩ squarePlan
        overflowingBlock (List.replicate 2048 0) [0, 0, 0, 0, 0] (.i64 [0, 0])) := by
  obtain ⟨f, hf, h⟩ := blocks_report_first_fault prepare_square
  refine ⟨f, hf, (h ⟨true⟩ overflowingBlock _ overflowingBlock_fits rfl).1 _ _ ?_ ?_⟩
  · rw [List.length_replicate]
    decide
  · exact ⟨rfl, by decide, by decide⟩

end Rnx.Columns
