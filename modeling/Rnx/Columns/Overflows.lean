import Rnx.Columns.Storage

/-!
# Where a row overflows

The interpreter ends a row at the instruction of the first node that faults on it, and with an
overflow (`Sound.overflows`).  The induction follows the pass over the code: as long as no node
faults the frame is tracked, and the first node that faults was pushed for the current pc.
-/

namespace Rnx.Columns

open Exec

/-- The first node of a row that faults. -/
def FirstFaulty (F : FloatOps) (nodes : List Node) (input : Nat → Word) (k : Nat) : Prop :=
  k < nodes.length ∧ (lane F nodes input k).2 = true ∧ ∀ i, i < k → (lane F nodes input i).2 = false

lemma FirstFaulty.unique {F : FloatOps} {nodes : List Node} {input : Nat → Word} {k k' : Nat}
    (h : FirstFaulty F nodes input k) (h' : FirstFaulty F nodes input k') : k = k' := by
  obtain ⟨-, hf, hbefore⟩ := h
  obtain ⟨-, hf', hbefore'⟩ := h'
  rcases Nat.lt_trichotomy k k' with hlt | he | hgt
  · rw [hbefore' k hlt] at hf
    cases hf
  · exact he
  · rw [hbefore k' hgt] at hf'
    cases hf'

/-- A row that faults has a first node that does. -/
lemma exists_firstFaulty {F : FloatOps} {nodes : List Node} {input : Nat → Word}
    (h : Faulty F nodes input) : ∃ k, FirstFaulty F nodes input k := by
  classical
  have hspec := Nat.find_spec h
  refine ⟨Nat.find h, hspec.1, hspec.2, fun i hi => ?_⟩
  have hmin := Nat.find_min h hi
  rw [not_and] at hmin
  exact Bool.eq_false_iff.2 (hmin (Nat.lt_trans hi hspec.1))

/-- The interpreter overflows at `pc`, given fuel for every instruction. -/
def OverflowsAt (F : FloatOps) (code : List CachedInstruction) (slots : List Value)
    (start pc : Nat) : Prop :=
  ∀ fuel, code.length ≤ fuel →
    ∃ e : PrimitiveError, e.kind = .overflow ∧ loopAt F code slots fuel start = .error (.primitive e, pc)

section

variable {F : FloatOps} {inputs : List ColumnType} {d d' d'' : Draft} {input : Nat → Word}

lemma charge_of_pos (charged : Bool) {fuel : Nat} (h : 0 < fuel) :
    ∃ rest, charge charged fuel = .ok rest ∧ fuel ≤ rest + 1 := by
  unfold Exec.charge
  cases charged
  · exact ⟨fuel, rfl, Nat.le_succ fuel⟩
  · rw [if_pos rfl, if_neg (by omega)]
    exact ⟨fuel - 1, rfl, by omega⟩

lemma overflowsAt_here {i : CachedInstruction} {code : List CachedInstruction}
    {slots : List Value} {pc : Nat} {e : PrimitiveError} (hkind : e.kind = .overflow)
    (harm : arm F slots i.op = .error (.primitive e)) :
    OverflowsAt F (i :: code) slots pc pc := by
  intro fuel hfuel
  obtain ⟨rest, hcharge, -⟩ := charge_of_pos i.charged
    (Nat.lt_of_lt_of_le (Nat.succ_pos _) hfuel)
  refine ⟨e, hkind, ?_⟩
  rw [loopAt, hcharge, harm]
  rfl

lemma OverflowsAt.cons {i : CachedInstruction} {code : List CachedInstruction}
    {slots next : List Value} {start pc : Nat} (harm : arm F slots i.op = .ok (.go next))
    (h : OverflowsAt F code next (start + 1) pc) : OverflowsAt F (i :: code) slots start pc := by
  intro fuel hfuel
  obtain ⟨rest, hcharge, hrest⟩ := charge_of_pos i.charged
    (Nat.lt_of_lt_of_le (Nat.succ_pos _) hfuel)
  have hlen : code.length ≤ rest := by
    rw [List.length_cons] at hfuel
    omega
  obtain ⟨e, hkind, hloop⟩ := h rest hlen
  refine ⟨e, hkind, ?_⟩
  rw [loopAt, hcharge, harm]
  exact hloop

/-- A node that makes a row fault was pushed for its instruction. -/
lemma pc_of_pushed (hd : d.Ok inputs) {i : CachedInstruction} {pc : Nat}
    (h : prepareOp F { d with rowCharge := d.rowCharge + if i.charged then 1 else 0 } pc i.op
      = .ok (d', none)) (hn : ¬Faulty F d.nodes input) (hf : Faulty F d'.nodes input) :
    FirstFaulty F d'.nodes input d.nodes.length ∧ (nodeAt d'.nodes d.nodes.length).pc = pc := by
  have hd0 := hd.charged (d.rowCharge + if i.charged then 1 else 0)
  have hs := stepped_of_prepareOp hd h
  obtain ⟨k, hk⟩ := exists_firstFaulty hf
  -- The old nodes do not fault, so the new one does.
  have hold : ∀ j, j < d.nodes.length → (lane F d'.nodes input j).2 = false := by
    intro j hj
    obtain ⟨more, hmore⟩ := hs.grows
    rw [hmore, lane_append F input hd.typed more hj]
    exact Bool.eq_false_iff.2 fun hlane => hn ⟨j, hj, hlane⟩
  have hlen : d.nodes.length ≤ k := by
    by_contra hlt
    have := hold k (by omega)
    rw [hk.2.1] at this
    cases this
  cases prepareOp_cases hd0 h with
  | push out step ty typed pushed runs =>
    obtain ⟨-, rfl⟩ := Draft.push_eq pushed
    have hk' : k < d.nodes.length + 1 := by simpa using hk.1
    obtain rfl : k = d.nodes.length := by omega
    refine ⟨hk, ?_⟩
    dsimp only
    rw [nodeAt_length]
  | set slot node known written runs =>
    obtain ⟨-, rfl⟩ := Draft.setSlot_eq written
    exact absurd hf hn

/-- The pass over the code, against the pc at which the loop overflows. -/
theorem prepareCode_overflows {f : Function} (hf : f.prepareCache = .ok f) {result : Nat}
    {code : List Instruction} {pc : Nat} (hcode : f.code.drop pc = code) (hd : d.Ok inputs)
    (h : prepareCode F f code pc d = .ok (d', result)) {slots : List Value}
    (hrow : TypedRow inputs input) (ht : d.Tracks F input slots) (hn : ¬Faulty F d.nodes input)
    {k : Nat} (hk : FirstFaulty F d'.nodes input k) :
    OverflowsAt F (f.cached.drop pc) slots pc (nodeAt d'.nodes k).pc := by
  induction code generalizing pc d slots with
  | nil => cases h
  | cons i code ih =>
    obtain ⟨op, hdrop, hnext, d₁, r, hp, hrest⟩ := prepareCode_cons hf hcode h
    rw [hdrop]
    rcases hrest with ⟨rfl, rfl⟩ | ⟨rfl, h⟩
    · cases prepareOp_cases (hd.charged (d.rowCharge + if i.charged then 1 else 0)) hp with
      | result _ known runs => exact absurd ⟨k, hk.1, hk.2.1⟩ hn
    · have hs := stepped_of_prepareOp (i := ⟨op, i.charged⟩) hd hp
      by_cases hfault : Faulty F d₁.nodes input
      · obtain ⟨hfirst, hpc⟩ := pc_of_pushed (i := ⟨op, i.charged⟩) hd hp hn hfault
        obtain ⟨e, hkind, harm⟩ := hs.faults input slots hrow ht hn hfault
        obtain ⟨more, hmore⟩ := (prepareCode_pass hf hnext hs.ok h).grows
        have hlt := hfirst.1
        have hsame : ∀ j, j ≤ d.nodes.length →
            lane F d'.nodes input j = lane F d₁.nodes input j := fun j hj => by
          rw [hmore, lane_append F input hs.ok.typed more (by omega)]
        have hkn : k = d.nodes.length := by
          refine hk.unique ⟨?_, ?_, fun j hj => ?_⟩
          · rw [hmore, List.length_append]
            omega
          · rw [hsame _ (Nat.le_refl _)]
            exact hfirst.2.1
          · rw [hsame j (by omega)]
            exact hfirst.2.2 j hj
        have hat : (nodeAt d'.nodes k).pc = pc := by
          rw [hkn, hmore, nodeAt_append hlt]
          exact hpc
        rw [hat]
        exact overflowsAt_here hkind harm
      · obtain ⟨next, harm, ht'⟩ := hs.runs input slots hrow ht hfault
        exact OverflowsAt.cons harm (ih hnext hs.ok h ht' hfault)

end

/-! ## Prepared plans -/

/-- The frame a row starts with. -/
def rowFrame (f : Function) (inputs : List ColumnType) (input : Nat → Word) : List Value :=
  rowArgs inputs input ++ List.replicate (f.slots - (rowArgs inputs input).length) .unit

/-- The first node of a row that faults names the instruction at which the row overflows. -/
theorem prepare_overflows {F : FloatOps} {L : Layout} {program : Program} {function : Nat}
    {inputs : List ColumnType} {output : ColumnType} {limit : Nat} {p : PreparedColumn}
    (h : prepare F L program function inputs output limit = .ok p) {f : Function}
    (hf : program.function function = some f) {input : Nat → Word} (hrow : TypedRow inputs input)
    {k : Nat} (hk : FirstFaulty F p.nodes input k) :
    OverflowsAt F f.cached (rowFrame f inputs input) 0 (nodeAt p.nodes k).pc := by
  obtain ⟨-, f', hf', -, start, d, result, bytes, hstart, hcode, hty, rfl⟩ := prepare_eq h
  obtain rfl : f' = f := Option.some.inj (hf'.symm.trans hf)
  have hcached := program.cached f' (List.mem_of_getElem? hf)
  have hok := (prepareCode_pass hcached (List.drop_zero) (inputDraft_ok hstart) hcode).ok
  have hplaced : Placed d.nodes _ result _ :=
    allocate_sound fun i hi => TypedStep.deps_lt (hok.typed i hi)
  obtain ⟨htracks, hn⟩ := inputDraft_tracks (F := F) hstart input
  dsimp only at hk ⊢
  have hlt : k < d.nodes.length := hplaced.length ▸ hk.1
  have hkd : FirstFaulty F d.nodes input k := by
    refine ⟨hlt, ?_, fun i hi => ?_⟩
    · rw [← hplaced.lane hok.typed input hlt]
      exact hk.2.1
    · rw [← hplaced.lane hok.typed input (Nat.lt_trans hi hlt)]
      exact hk.2.2 i hi
  have := prepareCode_overflows hcached (List.drop_zero) (inputDraft_ok hstart) hcode hrow htracks
    hn hkd
  rwa [List.drop_zero, ← (hplaced.node k hlt).2.2] at this

end Rnx.Columns
