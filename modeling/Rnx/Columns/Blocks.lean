import Rnx.Columns.Outputs

/-!
# A plan over a block

`execute` runs the computed nodes in order over the shared scratch.  What it publishes does not
depend on where the values lived: every selected row has the value of the result node on that row,
every other row of the block is zero, the rows outside the block are untouched, and the block
fails exactly when a selected row faults (`execute_spec`).  The invariant says that a node whose
place was not taken again holds its lanes on the selected rows; `Recycle` carries it over the run.
-/

namespace Rnx.Columns

open Packed

/-! ## Blocks -/

/-- The word of a chunk at a row. -/
def ColumnSlice.at (values : ColumnSlice) (i : Nat) : Word :=
  match values with
  | .i64 v => v.getD i 0
  | .f64 v => v.getD i 0
  | .bool v => Columns.bool (v.bit i)

/-- The word of a column on a row of the block. -/
def Block.input (b : Block) (j c : Nat) : Word :=
  match b.inputs[c]? with
  | some (values, offset) => values.at (offset + j)
  | none => 0

/-- A block inside the current chunks of columns of the given types. -/
structure Block.Fits (b : Block) (inputs : List ColumnType) : Prop where
  size : b.n ≤ block
  rows : b.row + b.n ≤ usizeMax
  input : ∀ (c : Nat) ty, inputs[c]? = some ty → ∃ (values : ColumnSlice) (offset : Nat),
    b.inputs[c]? = some (values, offset) ∧ values.columnType = ty ∧ offset + b.n ≤ values.len

/-- Every row of a block is a row of its types. -/
lemma Block.Fits.typedRow {b : Block} {inputs : List ColumnType} (h : b.Fits inputs) (j : Nat) :
    TypedRow inputs (b.input j) := by
  intro c ty hc
  obtain ⟨values, offset, hb, hty, -⟩ := h.input c ty hc
  unfold Block.input
  rw [hb]
  cases values with
  | i64 v =>
    intro hbool
    rw [← hty] at hbool
    cases hbool
  | f64 v =>
    intro hbool
    rw [← hty] at hbool
    cases hbool
  | bool v => exact wordOf_bool ty _

/-! ## What the places hold -/

/-- What a place holds for a row of the block. -/
def Running.read (s : Running) (b : Block) (place : Operand) (j : Nat) : Word :=
  match place with
  | .input c => b.input j c
  | .constant v => v
  | .slot t => s.scratch.getD (t * block + j) 0
  | .output => s.values.at (b.row + j)

/-- The operand of a kernel: what its place holds, as words unless it is Boolean. -/
structure Gives (s : Running) (b : Block) (place : Operand) (ty : ColumnType) (x : Lanes) :
    Prop where
  at_eq : ∀ j, j < b.n → x.at j = s.read b place j
  words : ty ≠ .bool → x.Words b.n

section

variable {s : Running} {b : Block} {inputs : List ColumnType}

lemma inputValue_spec (hb : b.Fits inputs) {c : Nat} {ty : ColumnType} (hc : inputs[c]? = some ty)
    {sources : Sources} (hs : sources.block = b) :
    ∃ x, sources.get (.input c) = .ok x ∧ Gives s b (.input c) ty x := by
  obtain ⟨values, offset, hv, hty, hlen⟩ := hb.input c ty hc
  subst hs
  have hget : sources.get (.input c) = inputValue values offset sources.block.n := by
    rw [Sources.get, hv]
    rfl
  have hinput : ∀ j, sources.block.input j c = values.at (offset + j) := by
    intro j
    rw [Block.input, hv]
  rw [hget]
  cases values with
  | i64 v =>
    rw [inputValue, slice?_eq hlen]
    refine ⟨_, rfl, fun j hj => ?_, fun _ => length_slice hlen⟩
    exact (getD_slice 0 hj).trans (hinput j).symm
  | f64 v =>
    rw [inputValue, slice?_eq hlen]
    refine ⟨_, rfl, fun j hj => ?_, fun _ => length_slice hlen⟩
    exact (getD_slice 0 hj).trans (hinput j).symm
  | bool v =>
    rw [inputValue, if_pos (.inr hlen)]
    refine ⟨_, rfl, fun j _ => (hinput j).symm, fun hne => absurd hty.symm hne⟩

/-- A slot beside the one that is split out of the scratch. -/
lemma get_slot (hn : b.n ≤ block) {scratch : List Word} {split t : Nat} (output : Option Lanes)
    (hlen : (t + 1) * block ≤ scratch.length)
    (hbeside : (t + 1) * block ≤ split ∨ split + block ≤ t * block) :
    ∃ part, Sources.get ⟨b, scratch.take split, scratch.drop (split + block), split, output⟩ (.slot t)
        = .ok (.words part) ∧ part.length = b.n ∧
      ∀ j, j < b.n → part.getD j 0 = scratch.getD (t * block + j) 0 := by
  have hmul : (t + 1) * block = t * block + block := by ring
  rw [hmul] at hlen hbeside
  rcases hbeside with hbefore | hafter
  · have hroom : t * block + b.n ≤ (scratch.take split).length := by
      rw [List.length_take]
      omega
    refine ⟨((scratch.take split).drop (t * block)).take b.n, ?_, length_slice hroom, ?_⟩
    · unfold Sources.get
      dsimp only
      rw [if_pos (by rw [block] at *; omega), slice?_eq hroom]
      rfl
    · intro j hj
      rw [getD_slice 0 hj, List.getD_eq_getElem?_getD, List.getElem?_take_of_lt (by omega),
        ← List.getD_eq_getElem?_getD]
  · have hroom : t * block - split - block + b.n ≤ (scratch.drop (split + block)).length := by
      rw [List.length_drop]
      omega
    refine ⟨((scratch.drop (split + block)).drop (t * block - split - block)).take b.n, ?_,
      length_slice hroom, ?_⟩
    · unfold Sources.get
      dsimp only
      rw [if_neg (by omega), if_neg (by omega), slice?_eq hroom]
      rfl
    · intro j hj
      rw [getD_slice 0 hj, List.getD_eq_getElem?_getD, List.getElem?_drop,
        ← List.getD_eq_getElem?_getD]
      congr 1
      omega

end

/-! ## Plans whose places are sound -/

/-- What the executor relies on: typed nodes, and places that hold what is read from them. -/
structure Housed (p : PreparedColumn) : Prop where
  typed : Typed p.inputs p.nodes
  result_lt : p.result < p.nodes.length
  output : (nodeAt p.nodes p.result).ty = p.output
  fits : ∀ i, i < p.nodes.length →
    Alloc.Fits p.result i p.scratchCount (nodeAt p.nodes i) (nodeAt p.nodes i).operand
  places : (placement p.nodes).Sound p.nodes.length
  keeps : (placement p.nodes).Owns p.result p.nodes.length

lemma Sound.housed {F : FloatOps} {f : Function} {p : PreparedColumn} (h : Sound F f p) :
    Housed p := ⟨h.typed, h.result_lt, h.output, h.fits, h.places, h.keeps⟩

/-- Scratch for every slot, and an output of the plan's type with the rows of the block. -/
structure Running.Ready (s : Running) (p : PreparedColumn) (b : Block) : Prop where
  scratch : p.scratchCount * block ≤ s.scratch.length
  values : s.values.Holds p.output (b.row + b.n)

section

variable {F : FloatOps} {e : Engine} {p : PreparedColumn} {b : Block} {mask : Option Word}

/-- The place of a node that is not computed, and the places of computed ones. -/
lemma Housed.place_cases (h : Housed p) {a : Nat} (ha : a < p.nodes.length) :
    (∃ c, (nodeAt p.nodes a).step = .input c ∧ (nodeAt p.nodes a).operand = .input c ∧
      p.inputs[c]? = some (nodeAt p.nodes a).ty) ∨
    (∃ v, (nodeAt p.nodes a).step = .constant v ∧ (nodeAt p.nodes a).operand = .constant v) ∨
    ((nodeAt p.nodes a).step.computes = true ∧ a ≠ p.result ∧
      ∃ t, t < p.scratchCount ∧ (nodeAt p.nodes a).operand = .slot t) ∨
    ((nodeAt p.nodes a).step.computes = true ∧ a = p.result ∧
      (nodeAt p.nodes a).operand = .output) := by
  have hf := h.fits a ha
  have ht : TypedStep p.inputs p.nodes a _ _ := h.typed a ha
  have hcomputed : (nodeAt p.nodes a).step.computes = true →
      ((nodeAt p.nodes a).step.computes = true ∧ a ≠ p.result ∧
        ∃ t, t < p.scratchCount ∧ (nodeAt p.nodes a).operand = .slot t) ∨
      ((nodeAt p.nodes a).step.computes = true ∧ a = p.result ∧
        (nodeAt p.nodes a).operand = .output) := by
    intro hc
    by_cases hr : a = p.result
    · exact .inr ⟨hc, hr, hf.output hc hr⟩
    · exact .inl ⟨hc, hr, hf.slot hc hr⟩
  rcases hs : (nodeAt p.nodes a).step with c | v | ⟨op, x, y⟩ | x
  · rw [hs] at ht
    exact .inl ⟨c, rfl, hf.input c hs, ht⟩
  · exact .inr (.inl ⟨v, rfl, hf.constant v hs⟩)
  · rw [hs] at hcomputed
    exact .inr (.inr (hcomputed rfl))
  · rw [hs] at hcomputed
    exact .inr (.inr (hcomputed rfl))

/-- Reading a node from a scratch without the slot from `split` on. -/
lemma Housed.get (h : Housed p) (hb : b.Fits p.inputs) {s : Running} (hs : s.Ready p b) {a : Nat}
    (ha : a < p.nodes.length) {split : Nat} {output : Option Lanes}
    (hslot : ∀ t, (nodeAt p.nodes a).operand = .slot t →
      (t + 1) * block ≤ split ∨ split + block ≤ t * block)
    (houtput : (nodeAt p.nodes a).operand = .output →
      ∃ x, output = some x ∧ Gives s b .output p.output x) :
    ∃ x, Sources.get ⟨b, s.scratch.take split, s.scratch.drop (split + block), split, output⟩
        (nodeAt p.nodes a).operand = .ok x ∧
      Gives s b (nodeAt p.nodes a).operand (nodeAt p.nodes a).ty x := by
  rcases h.place_cases ha with ⟨c, -, ho, hc⟩ | ⟨v, -, ho⟩ | ⟨-, -, t, ht, ho⟩ | ⟨-, hr, ho⟩
  · rw [ho]
    exact inputValue_spec hb hc rfl
  · rw [ho]
    exact ⟨.constant v, rfl, fun _ _ => rfl, fun _ => trivial⟩
  · have hlen : (t + 1) * block ≤ s.scratch.length :=
      Nat.le_trans (Nat.mul_le_mul_right _ ht) hs.scratch
    obtain ⟨part, hpart, hl, hat⟩ := get_slot hb.size output hlen (hslot t ho)
    rw [ho]
    exact ⟨.words part, hpart, hat, fun _ => hl⟩
  · obtain ⟨x, rfl, hx⟩ := houtput ho
    rw [ho, hr, h.output]
    exact ⟨x, rfl, hx⟩

/-! ## One node -/

/-- A place holds the lanes of a node: on the rows of the mask the node's value, and on the others
zero unless integers were computed there. -/
def Running.Has (F : FloatOps) (nodes : List Node) (b : Block) (mask : Option Word) (s : Running)
    (place : Operand) (a : Nat) : Prop :=
  ∀ j, j < b.n →
    (selects mask j = true → s.read b place j = (lane F nodes (b.input j) a).1) ∧
    (selects mask j = false → (nodeAt nodes a).step.computes = true → (nodeAt nodes a).ty ≠ .i64 →
      s.read b place j = 0)

/-- An operand that is not computed always holds its lanes. -/
lemma Housed.selected (h : Housed p) {s : Running} {a : Nat} (ha : a < p.nodes.length)
    (hheld : (nodeAt p.nodes a).step.computes = true →
      s.Has F p.nodes b mask (nodeAt p.nodes a).operand a) {j : Nat} (hj : j < b.n)
    (hsel : selects mask j = true) :
    s.read b (nodeAt p.nodes a).operand j = (lane F p.nodes (b.input j) a).1 := by
  rcases h.place_cases ha with ⟨c, hs, ho, -⟩ | ⟨v, hs, ho⟩ | ⟨hc, -⟩ | ⟨hc, -⟩
  · rw [lane_of_typed h.typed ha, hs, ho]
    rfl
  · rw [lane_of_typed h.typed ha, hs, ho]
    rfl
  · exact (hheld hc j hj).1 hsel
  · exact (hheld hc j hj).1 hsel

/-- The value of a computed node, when its operands are readable and hold their lanes. -/
lemma Housed.compute (h : Housed p) (e : Engine) (words : Bool) {s : Running} {i : Nat}
    (hi : i < p.nodes.length)
    (hc : (nodeAt p.nodes i).step.computes = true) (hm : mask.isSome = true → b.n ≤ 64)
    (hheld : ∀ a ∈ (nodeAt p.nodes i).step.deps, (nodeAt p.nodes a).step.computes = true →
      s.Has F p.nodes b mask (nodeAt p.nodes a).operand a)
    (sources : Sources) (hblock : sources.block = b)
    (hget : ∀ a ∈ (nodeAt p.nodes i).step.deps,
      ∃ x, sources.get (nodeAt p.nodes a).operand = .ok x ∧
        Gives s b (nodeAt p.nodes a).operand (nodeAt p.nodes a).ty x) :
    ∃ r, Columns.compute F e p.nodes sources words mask (nodeAt p.nodes i).step = .ok r ∧
      Yields b.n mask (fun j => lane F p.nodes (b.input j) i) (r.1, r.2.1) ∧
      ((nodeAt p.nodes i).ty ≠ .i64 → Clears b.n mask r.1) := by
  have ht : TypedStep p.inputs p.nodes i _ _ := h.typed i hi
  have hstep : ∀ j, lane F p.nodes (b.input j) i = stepLane F p.nodes (b.input j)
      (fun a => (lane F p.nodes (b.input j) a).1) (nodeAt p.nodes i).step :=
    fun j => lane_of_typed h.typed hi
  have hread : ∀ a ∈ (nodeAt p.nodes i).step.deps, ∀ x,
      Gives s b (nodeAt p.nodes a).operand (nodeAt p.nodes a).ty x → ∀ j, j < b.n →
        selects mask j = true → x.at j = (lane F p.nodes (b.input j) a).1 := by
    intro a ha x hx j hj hsel
    have hai : a < i := ht.deps_lt a ha
    rw [hx.at_eq j hj, h.selected (by omega) (hheld a ha) hj hsel]
  -- Lanes computed from what was read are the node's lanes on the selected rows.
  have hyields : ∀ {g : Nat → Word × Bool} {r : List Word × Bool}, Yields b.n mask g r →
      (∀ j, j < b.n → selects mask j = true → g j = lane F p.nodes (b.input j) i) →
      Yields b.n mask (fun j => lane F p.nodes (b.input j) i) r := by
    intro g r hr hg
    refine ⟨hr.length, fun j hj hsel => ?_, hr.fault.trans ?_⟩
    · rw [hr.lane j hj hsel, hg j hj hsel]
    · constructor
      · rintro ⟨j, hj, hsel, hf⟩
        exact ⟨j, hj, hsel, by rwa [← hg j hj hsel]⟩
      · rintro ⟨j, hj, hsel, hf⟩
        exact ⟨j, hj, hsel, by rwa [hg j hj hsel]⟩
  rcases hs : (nodeAt p.nodes i).step with c | v | ⟨op, x, y⟩ | x
  · rw [hs] at hc
    cases hc
  · rw [hs] at hc
    cases hc
  · rw [hs] at ht hget hstep hread
    obtain ⟨lx, hlx, hgx⟩ := hget x (by simp [Step.deps])
    obtain ⟨ly, hly, hgy⟩ := hget y (by simp [Step.deps])
    obtain ⟨-, -, hty⟩ := ht
    have hsame := binaryType_same hty
    obtain ⟨r, hr, hy, hclear⟩ := @operation_spec op lx ly b.n mask F e (nodeAt p.nodes x).ty words
      (fun hi64 _ _ => ⟨hgx.words (by rw [hi64]; decide),
        hgy.words (by rw [← hsame, hi64]; decide)⟩) hm
    refine ⟨r, ?_, hyields hy fun j hj hsel => ?_, fun hne => ?_⟩
    · rw [Columns.compute, hlx, hly, hblock]
      exact hr
    · rw [hstep j, stepLane, hread x (by simp [Step.deps]) lx hgx j hj hsel,
        hread y (by simp [Step.deps]) ly hgy j hj hsel]
    · refine hclear.resolve_left fun hboth => hne ?_
      obtain ⟨hi64, harith⟩ := hboth
      rw [← hsame, hi64] at hty
      cases op <;> first | exact (Except.ok.inj hty).symm | cases harith
  · rw [hs] at hget hstep hread
    obtain ⟨lx, hlx, hgx⟩ := hget x (by simp [Step.deps])
    refine ⟨_, by rw [Columns.compute, hlx, hblock]; rfl,
      hyields (yields_apply b.n mask _) fun j hj hsel => ?_, fun _ => clears_apply b.n mask _⟩
    rw [hstep j, stepLane, hread x (by simp [Step.deps]) lx hgx j hj hsel]

/-- A node's place is none of the places it reads. -/
lemma Housed.place_ne (h : Housed p) {i : Nat} (hi : i < p.nodes.length)
    (hc : (nodeAt p.nodes i).step.computes = true) {a : Nat}
    (ha : a ∈ (nodeAt p.nodes i).step.deps) :
    (nodeAt p.nodes i).operand ≠ (nodeAt p.nodes a).operand := by
  have hal : a < p.nodes.length := Nat.lt_trans (TypedStep.deps_lt (h.typed i hi) a ha) hi
  by_cases hca : (nodeAt p.nodes a).step.computes = true
  · obtain ⟨hai, howns⟩ := h.places i hi hc a ha hca
    exact howns i hai (Nat.lt_succ_self i) hc
  · -- Only computed nodes live in a slot or in the output.
    intro he
    rcases h.place_cases hi with ⟨c, hs, -⟩ | ⟨v, hs, -⟩ | ⟨-, -, t, -, ho⟩ | ⟨-, -, ho⟩
    · simp [hs, Step.computes] at hc
    · simp [hs, Step.computes] at hc
    · rcases h.place_cases hal with ⟨c, -, ho', -⟩ | ⟨v, -, ho'⟩ | ⟨hc', -⟩ | ⟨hc', -⟩
      · simp [ho, ho'] at he
      · simp [ho, ho'] at he
      · exact hca hc'
      · exact hca hc'
    · rcases h.place_cases hal with ⟨c, -, ho', -⟩ | ⟨v, -, ho'⟩ | ⟨hc', -⟩ | ⟨hc', -⟩
      · simp [ho, ho'] at he
      · simp [ho, ho'] at he
      · exact hca hc'
      · exact hca hc'

/-- Two slots lie beside each other. -/
lemma slots_beside {t d : Nat} (h : t ≠ d) :
    (t + 1) * block ≤ d * block ∨ d * block + block ≤ t * block := by
  rcases Nat.lt_or_gt_of_ne h with hlt | hgt
  · exact .inl (Nat.mul_le_mul_right _ hlt)
  · have := Nat.mul_le_mul_right block (show d + 1 ≤ t from hgt)
    rw [show (d + 1) * block = d * block + block by ring] at this
    exact .inr this

/-- What the loop keeps after `i` nodes. -/
structure Running.Reached (F : FloatOps) (p : PreparedColumn) (b : Block) (mask : Option Word)
    (values : ColumnValues) (i : Nat) (s : Running) : Prop where
  ready : s.Ready p b
  room : s.values.room = values.room
  outside : ∀ q, q < b.row ∨ b.row + b.n ≤ q → s.values.at q = values.at q
  failed : s.failed = true ↔ ∃ j, j < b.n ∧ selects mask j = true ∧
    ∃ k, k < i ∧ (lane F p.nodes (b.input j) k).2 = true

/-- A node's fault joins the faults so far. -/
lemma failed_step {i : Nat} {failed : Bool} {r : List Word × Bool}
    (hf : failed = true ↔ ∃ j, j < b.n ∧ selects mask j = true ∧
      ∃ k, k < i ∧ (lane F p.nodes (b.input j) k).2 = true)
    (hy : Yields b.n mask (fun j => lane F p.nodes (b.input j) i) r) :
    (failed || r.2) = true ↔ ∃ j, j < b.n ∧ selects mask j = true ∧
      ∃ k, k < i + 1 ∧ (lane F p.nodes (b.input j) k).2 = true := by
  rw [Bool.or_eq_true, hf, hy.fault]
  constructor
  · rintro (⟨j, hj, hs, k, hk, hlane⟩ | ⟨j, hj, hs, hlane⟩)
    · exact ⟨j, hj, hs, k, by omega, hlane⟩
    · exact ⟨j, hj, hs, i, Nat.lt_succ_self i, hlane⟩
  · rintro ⟨j, hj, hs, k, hk, hlane⟩
    rcases Nat.lt_or_eq_of_le (Nat.le_of_lt_succ hk) with hlt | rfl
    · exact .inl ⟨j, hj, hs, k, hlt, hlane⟩
    · exact .inr ⟨j, hj, hs, hlane⟩

/-- A node that is not computed has nothing to run and nothing to fail. -/
lemma Running.Reached.skip {values : ColumnValues} {s : Running} {i : Nat} (h : Housed p)
    (hs : s.Reached F p b mask values i) (hi : i < p.nodes.length)
    (hc : (nodeAt p.nodes i).step.computes = false) : s.Reached F p b mask values (i + 1) := by
  refine ⟨hs.ready, hs.room, hs.outside, hs.failed.trans ?_⟩
  constructor
  · rintro ⟨j, hj, hsel, k, hk, hlane⟩
    exact ⟨j, hj, hsel, k, by omega, hlane⟩
  · rintro ⟨j, hj, hsel, k, hk, hlane⟩
    rcases Nat.lt_or_eq_of_le (Nat.le_of_lt_succ hk) with hlt | rfl
    · exact ⟨j, hj, hsel, k, hlt, hlane⟩
    · exfalso
      rw [lane_of_typed h.typed hi] at hlane
      cases hstep : (nodeAt p.nodes k).step with
      | input c =>
        rw [hstep] at hlane
        cases hlane
      | constant v =>
        rw [hstep] at hlane
        cases hlane
      | binary op x y =>
        rw [hstep] at hc
        cases hc
      | not x =>
        rw [hstep] at hc
        cases hc

/-- Lanes put into a place are what the place has of their node. -/
lemma has_of_yields {s : Running} {i : Nat} {place : Operand} {r : List Word × Bool}
    (hy : Yields b.n mask (fun j => lane F p.nodes (b.input j) i) r)
    (hclear : (nodeAt p.nodes i).ty ≠ .i64 → Clears b.n mask r.1)
    (hread : ∀ j, j < b.n → s.read b place j = r.1.getD j 0) :
    s.Has F p.nodes b mask place i := fun j hj =>
  ⟨fun hsel => by rw [hread j hj, hy.lane j hj hsel],
    fun hsel _ hty => by rw [hread j hj, hclear hty j hj hsel]⟩

lemma Running.Has.frame {s s' : Running} {place : Operand} {a : Nat}
    (h : s.Has F p.nodes b mask place a)
    (hread : ∀ j, j < b.n → s'.read b place j = s.read b place j) :
    s'.Has F p.nodes b mask place a := fun j hj =>
  ⟨fun hsel => by rw [hread j hj]; exact (h j hj).1 hsel,
    fun hsel hc hty => by rw [hread j hj]; exact (h j hj).2 hsel hc hty⟩

/-- What a node leaves: the invariant one node further, its lanes in its place, and every other
place as it was. -/
def Running.Next (F : FloatOps) (p : PreparedColumn) (b : Block) (mask : Option Word)
    (values : ColumnValues) (i : Nat) (s s' : Running) : Prop :=
  s'.Reached F p b mask values (i + 1) ∧
    ((nodeAt p.nodes i).step.computes = true →
      s'.Has F p.nodes b mask (nodeAt p.nodes i).operand i) ∧
    ∀ l a, a < i → ((nodeAt p.nodes i).step.computes = true → l ≠ (nodeAt p.nodes i).operand) →
      s.Has F p.nodes b mask l a → s'.Has F p.nodes b mask l a

/-- A node computed into a slot. -/
lemma Housed.executeSlot (h : Housed p) (hb : b.Fits p.inputs) (hm : mask.isSome = true → b.n ≤ 64)
    {values : ColumnValues} {s : Running} {i : Nat} (hi : i < p.nodes.length)
    (hs : s.Reached F p b mask values i) (hc : (nodeAt p.nodes i).step.computes = true) {d : Nat}
    (hd : d < p.scratchCount) (hplace : (nodeAt p.nodes i).operand = .slot d)
    (hheld : ∀ a ∈ (nodeAt p.nodes i).step.deps, (nodeAt p.nodes a).step.computes = true →
      s.Has F p.nodes b mask (nodeAt p.nodes a).operand a) :
    ∃ s', executeNode F e p.nodes b mask s (nodeAt p.nodes i) = .ok s' ∧
      s.Next F p b mask values i s' := by
  have hdeps := TypedStep.deps_lt (h.typed i hi)
  have hlen : d * block + block ≤ s.scratch.length := by
    have := Nat.mul_le_mul_right block (show d + 1 ≤ p.scratchCount from hd)
    rw [show (d + 1) * block = d * block + block by ring] at this
    exact Nat.le_trans this hs.ready.scratch
  obtain ⟨out, hout, houtat, houtwords⟩ := outputValue_spec hs.ready.values
  obtain ⟨r, hr, hy, hclear⟩ := h.compute e true hi hc hm hheld ⟨b, s.scratch.take (d * block),
      s.scratch.drop (d * block + block), d * block, some out⟩ rfl fun a ha => by
    refine h.get hb hs.ready (Nat.lt_trans (hdeps a ha) hi) (fun t ht => slots_beside ?_)
      fun _ => ⟨out, rfl, houtat, houtwords⟩
    rintro rfl
    exact h.place_ne hi hc ha (hplace.trans ht.symm)
  obtain ⟨scratch, hsplice, hlen', hinside, houtside⟩ := splice_lanes s.scratch r.1 (d * block) (by
      rw [hy.length]
      have := hb.size
      omega)
  rw [hy.length] at hinside houtside
  refine ⟨⟨scratch, s.values, s.failed || r.2.1, s.simd || r.2.2⟩, ?_, ?_, fun _ => ?_, ?_⟩
  · unfold executeNode
    rw [hc, hplace, hout]
    dsimp only
    rw [if_neg (by simp), if_neg (by have := hb.size; omega)]
    exact Except.bind_eq_ok.2 ⟨out, rfl, Except.bind_eq_ok.2 ⟨r, hr, Except.bind_eq_ok.2
      ⟨scratch, by rw [hsplice]; rfl, rfl⟩⟩⟩
  · exact ⟨⟨by rw [hlen']; exact hs.ready.scratch, hs.ready.values⟩, hs.room, hs.outside,
      failed_step hs.failed hy⟩
  · rw [hplace]
    exact has_of_yields hy hclear fun j hj => hinside j hj
  · intro l a _ hne hhas
    refine hhas.frame fun j hj => ?_
    cases l with
    | input c => rfl
    | constant v => rfl
    | output => rfl
    | slot t =>
      have htd : t ≠ d := fun he => hne hc (by rw [hplace, he])
      refine houtside _ ?_
      have := hb.size
      rcases slots_beside htd with hlt | hgt
      · rw [show (t + 1) * block = t * block + block by ring] at hlt
        omega
      · omega

/-- The result computed into the output. -/
lemma Housed.executeOutput (h : Housed p) (hb : b.Fits p.inputs)
    (hm : mask.isSome = true → b.n ≤ 64) {values : ColumnValues} {s : Running} {i : Nat}
    (hi : i < p.nodes.length) (hs : s.Reached F p b mask values i)
    (hc : (nodeAt p.nodes i).step.computes = true) (hresult : i = p.result)
    (hplace : (nodeAt p.nodes i).operand = .output)
    (hheld : ∀ a ∈ (nodeAt p.nodes i).step.deps, (nodeAt p.nodes a).step.computes = true →
      s.Has F p.nodes b mask (nodeAt p.nodes a).operand a) :
    ∃ s', executeNode F e p.nodes b mask s (nodeAt p.nodes i) = .ok s' ∧
      s.Next F p b mask values i s' := by
  have hdeps := TypedStep.deps_lt (h.typed i hi)
  have hshape : (⟨b, s.scratch, [], s.scratch.length, none⟩ : Sources)
      = ⟨b, s.scratch.take s.scratch.length, s.scratch.drop (s.scratch.length + block),
          s.scratch.length, none⟩ := by
    rw [List.take_length, List.drop_eq_nil_of_le (Nat.le_add_right _ _)]
  obtain ⟨r, hr, hy, hclear⟩ := h.compute e s.values.isWords hi hc hm hheld
      ⟨b, s.scratch, [], s.scratch.length, none⟩ rfl fun a ha => by
    rw [hshape]
    have hai := Nat.lt_trans (hdeps a ha) hi
    refine h.get hb hs.ready hai (fun t ht => .inl ?_) fun ho => ?_
    · rcases h.place_cases hai with ⟨c, -, ho, -⟩ | ⟨v, -, ho⟩ | ⟨-, -, t', ht', ho⟩ | ⟨-, -, ho⟩
      · rw [ht] at ho
        cases ho
      · rw [ht] at ho
        cases ho
      · obtain rfl : t = t' := Operand.slot.inj (ht.symm.trans ho)
        exact Nat.le_trans (Nat.mul_le_mul_right _ ht') hs.ready.scratch
      · rw [ht] at ho
        cases ho
    · exact absurd (hplace.trans ho.symm) (h.place_ne hi hc ha)
  obtain ⟨after, hafter, hover⟩ := writeOutput_spec hs.ready.values hy.length
  have hrb : ∀ j, j < b.n → selects mask j = true →
      p.output.readBack (r.1.getD j 0) = r.1.getD j 0 := by
    intro j hj hsel
    refine readBack_of_wordOf ?_
    rw [hy.lane j hj hsel, ← h.output, ← hresult]
    exact lane_wordOf h.typed (hb.typedRow j) hi
  have hrz : p.output.readBack 0 = 0 := readBack_of_wordOf fun _ => .inl rfl
  refine ⟨⟨s.scratch, after, s.failed || r.2.1, s.simd || r.2.2⟩, ?_, ?_, fun _ => ?_, ?_⟩
  · unfold executeNode
    rw [hc, hplace]
    dsimp only
    rw [if_neg (by simp)]
    exact Except.bind_eq_ok.2 ⟨r, hr, Except.bind_eq_ok.2 ⟨after, hafter, rfl⟩⟩
  · exact ⟨⟨hs.ready.scratch, hover.holds hs.ready.values⟩, hover.room.trans hs.room,
      fun q hq => (hover.outside q hq).trans (hs.outside q hq), failed_step hs.failed hy⟩
  · rw [hplace]
    refine fun j hj => ⟨fun hsel => ?_, fun hsel _ hty => ?_⟩
    · exact (hover.inside j hj).trans ((hrb j hj hsel).trans (hy.lane j hj hsel))
    · refine (hover.inside j hj).trans ?_
      rw [hclear hty j hj hsel, hrz]
  · intro l a _ hne hhas
    refine hhas.frame fun j _ => ?_
    cases l with
    | input c => rfl
    | constant v => rfl
    | slot t => rfl
    | output => exact absurd hplace.symm (hne hc)

/-- One iteration of the loop over the nodes. -/
lemma Housed.executeNode (h : Housed p) (hb : b.Fits p.inputs)
    (hm : mask.isSome = true → b.n ≤ 64) {values : ColumnValues} {s : Running} {i : Nat}
    (hi : i < p.nodes.length) (hs : s.Reached F p b mask values i)
    (hheld : (nodeAt p.nodes i).step.computes = true → ∀ a ∈ (nodeAt p.nodes i).step.deps,
      (nodeAt p.nodes a).step.computes = true →
        s.Has F p.nodes b mask (nodeAt p.nodes a).operand a) :
    ∃ s', Columns.executeNode F e p.nodes b mask s (nodeAt p.nodes i) = .ok s' ∧
      s.Next F p b mask values i s' := by
  rcases hc : (nodeAt p.nodes i).step.computes
  · refine ⟨s, ?_, hs.skip h hi hc, fun he => ?_, fun l a _ _ hhas => hhas⟩
    · rw [Columns.executeNode, hc]
      rfl
    · rw [hc] at he
      cases he
  · rcases h.place_cases hi with ⟨c, hstep, -⟩ | ⟨v, hstep, -⟩ | ⟨-, -, d, hd, ho⟩ | ⟨-, hr, ho⟩
    · rw [hstep] at hc
      cases hc
    · rw [hstep] at hc
      cases hc
    · exact h.executeSlot hb hm hi hs hc hd ho (hheld hc)
    · exact h.executeOutput hb hm hi hs hc hr ho (hheld hc)

/-! ## All nodes -/

/-- The lanes a block publishes: the result on the selected rows, zero on the others. -/
def publishedLane (F : FloatOps) (p : PreparedColumn) (b : Block) (mask : Option Word) (j : Nat) :
    Word :=
  if selects mask j then (lane F p.nodes (b.input j) p.result).1 else 0

/-- The loop over the nodes. -/
lemma Housed.executeNodes (h : Housed p) (hb : b.Fits p.inputs)
    (hm : mask.isSome = true → b.n ≤ 64) {values : ColumnValues} {s : Running} (hs : s.Ready p b)
    (hvalues : s.values = values) (hfailed : s.failed = false) :
    ∃ s', p.nodes.foldlM (Columns.executeNode F e p.nodes b mask) s = .ok s' ∧
      s'.Reached F p b mask values p.nodes.length ∧
      ((nodeAt p.nodes p.result).step.computes = true →
        s'.Has F p.nodes b mask (nodeAt p.nodes p.result).operand p.result) := by
  have hstart : s.Reached F p b mask values 0 := by
    refine ⟨hs, by rw [hvalues], fun q _ => by rw [hvalues], fun hf => ?_, ?_⟩
    · rw [hfailed] at hf
      cases hf
    · rintro ⟨-, -, -, k, hk, -⟩
      exact absurd hk (Nat.not_lt_zero k)
  have hrun := Recycle.Placement.ends_foldlM_of_sound (p := placement p.nodes)
    (f := Columns.executeNode F e p.nodes b mask) (E := fun _ => False) h.places
    (fun s l a => s.Has F p.nodes b mask l a)
    (fun i s => s.Reached F p b mask values i) hstart
    (by
      intro i hi s hs hheld
      have hnode : p.nodes[i] = nodeAt p.nodes i := by simp [nodeAt, hi]
      obtain ⟨s', hs', hnext⟩ := h.executeNode (e := e) hb hm hi hs hheld
      rw [hnode, hs']
      exact hnext)
  obtain ⟨s', hs', hreached, hhas⟩ := hrun.returns
  exact ⟨s', hs', hreached, fun hc => hhas p.result h.result_lt hc h.keeps⟩

/-- The output with the result on the selected rows of the block, and zero on the others unless
they are integers. -/
structure Filled (F : FloatOps) (p : PreparedColumn) (b : Block) (mask : Option Word)
    (values after : ColumnValues) : Prop where
  type : after.columnType = p.output
  room : after.room = values.room
  selected : ∀ j, j < b.n → selects mask j = true →
    after.at (b.row + j) = (lane F p.nodes (b.input j) p.result).1
  cleared : ∀ j, j < b.n → selects mask j = false → p.output ≠ .i64 → after.at (b.row + j) = 0
  outside : ∀ q, q < b.row ∨ b.row + b.n ≤ q → after.at q = values.at q

/-- The lane of the result as it is stored. -/
lemma Housed.readBack_result (h : Housed p) (hb : b.Fits p.inputs) (j : Nat) :
    p.output.readBack (lane F p.nodes (b.input j) p.result).1
      = (lane F p.nodes (b.input j) p.result).1 := by
  refine readBack_of_wordOf ?_
  rw [← h.output]
  exact lane_wordOf h.typed (hb.typedRow j) h.result_lt

/-- A result that no node computes is copied with the mask. -/
lemma Housed.copyResult (h : Housed p) (hb : b.Fits p.inputs) {values : ColumnValues}
    {s : Running} {i : Nat} (hs : s.Reached F p b mask values i) {operand : Operand}
    (ho : (nodeAt p.nodes p.result).operand = operand) (hne : operand ≠ .output)
    (hc : (nodeAt p.nodes p.result).step.computes = false) {x : Lanes}
    (hget : Sources.get ⟨b, s.scratch, [], s.scratch.length, none⟩ operand = .ok x)
    (hx : ∀ j, j < b.n → x.at j = s.read b operand j) :
    ∃ after, executeResult p b mask s = .ok after ∧ Filled F p b mask values after := by
  have hy := yields_apply b.n mask fun i => (x.at i, false)
  obtain ⟨after, hafter, hover⟩ := writeOutput_spec hs.ready.values hy.length
  refine ⟨after, ?_, hover.type.trans hs.ready.values.type, hover.room.trans hs.room,
    fun j hj hsel => ?_, fun j hj hsel _ => ?_,
    fun q hq => (hover.outside q hq).trans (hs.outside q hq)⟩
  · unfold executeResult
    rw [ho]
    cases operand with
    | output => exact absurd rfl hne
    | input c => exact Except.bind_eq_ok.2 ⟨x, hget, hafter⟩
    | constant v => exact Except.bind_eq_ok.2 ⟨x, hget, hafter⟩
    | slot t => exact Except.bind_eq_ok.2 ⟨x, hget, hafter⟩
  · rw [hover.inside j hj, hy.lane j hj hsel, hx j hj, ← ho,
      h.selected h.result_lt (fun he => by rw [hc] at he; cases he) hj hsel]
    exact h.readBack_result hb j
  · rw [hover.inside j hj, clears_apply b.n mask _ j hj hsel]
    exact readBack_of_wordOf fun _ => .inl rfl

/-- The output after the nodes and the write of a result that none of them computes. -/
lemma Housed.executeResult (h : Housed p) (hb : b.Fits p.inputs) {values : ColumnValues}
    {s : Running} {i : Nat} (hs : s.Reached F p b mask values i)
    (hhas : (nodeAt p.nodes p.result).step.computes = true →
      s.Has F p.nodes b mask (nodeAt p.nodes p.result).operand p.result) :
    ∃ after, Columns.executeResult p b mask s = .ok after ∧ Filled F p b mask values after := by
  rcases h.place_cases h.result_lt with ⟨c, hstep, ho, hc⟩ | ⟨v, hstep, ho⟩ | ⟨-, hne, -⟩ | ⟨hc, -, ho⟩
  · obtain ⟨x, hget, hx⟩ := @inputValue_spec s b p.inputs hb c _ hc
      ⟨b, s.scratch, [], s.scratch.length, none⟩ rfl
    exact h.copyResult hb hs ho (by simp) (by rw [hstep]; rfl) hget hx.at_eq
  · exact h.copyResult hb hs ho (by simp) (by rw [hstep]; rfl) (x := .constant v) rfl
      fun _ _ => rfl
  · exact absurd rfl hne
  · have hhas := hhas hc
    rw [ho] at hhas
    refine ⟨s.values, by rw [Columns.executeResult, ho], hs.ready.values.type, hs.room,
      fun j hj hsel => (hhas j hj).1 hsel, fun j hj hsel hne => (hhas j hj).2 hsel hc ?_,
      hs.outside⟩
    rwa [h.output]

/-- Clearing the null lanes of integers makes the block what is published. -/
lemma Filled.clearNulls {values after : ColumnValues} (hf : Filled F p b mask values after)
    (hv : values.Holds p.output (b.row + b.n)) (hm : mask.isSome = true → b.n ≤ 64) :
    ∃ final, Columns.clearNulls b mask after = .ok final ∧
      values.Overwritten final b.row b.n (publishedLane F p b mask) := by
  have hkept : (∀ j, j < b.n → selects mask j = false → p.output ≠ .i64) →
      values.Overwritten after b.row b.n (publishedLane F p b mask) := by
    intro hne
    refine ⟨hf.type.trans hv.type.symm, hf.room, fun j hj => ?_, hf.outside⟩
    unfold publishedLane
    split
    · rename_i hsel
      exact hf.selected j hj hsel
    · rename_i hsel
      have hsel := Bool.eq_false_iff.2 hsel
      exact hf.cleared j hj hsel (hne j hj hsel)
  cases mask with
  | none => exact ⟨after, rfl, hkept fun j _ hsel => nomatch hsel⟩
  | some m =>
    have htype := hf.type
    cases after with
    | f64 v => exact ⟨.f64 v, rfl, hkept fun j _ _ he => by rw [he] at htype; cases htype⟩
    | bool bytes => exact ⟨.bool bytes, rfl, hkept fun j _ _ he => by rw [he] at htype; cases htype⟩
    | i64 v =>
      have hvi : (ColumnValues.i64 v).Holds .i64 (b.row + b.n) :=
        ⟨rfl, hf.room ▸ hv.room, hv.bounded⟩
      obtain ⟨final, hfinal, hover⟩ := clearNulls_spec (m := m) hvi (hm rfl)
      refine ⟨final, hfinal, hover.type.trans (htype.trans hv.type.symm),
        hover.room.trans hf.room, fun j hj => ?_,
        fun q hq => (hover.outside q hq).trans (hf.outside q hq)⟩
      rw [hover.inside j hj]
      unfold publishedLane
      refine if_ctx_congr Iff.rfl (fun hsel => ?_) fun _ => rfl
      exact hf.selected j hj hsel

/-- A block of a plan: what is published and when it fails, wherever the values live. -/
theorem execute_spec (h : Housed p) (hb : b.Fits p.inputs) (hm : mask.isSome = true → b.n ≤ 64)
    (e : Engine) {scratch : List Word} (hscratch : p.scratchCount * block ≤ scratch.length)
    {values : ColumnValues} (hv : values.Holds p.output (b.row + b.n)) :
    ∃ s, execute F e p b mask scratch values = .ok s ∧
      values.Overwritten s.values b.row b.n (publishedLane F p b mask) ∧
      (s.failed = true ↔ ∃ j, j < b.n ∧ selects mask j = true ∧ Faulty F p.nodes (b.input j)) := by
  obtain ⟨s, hs, hreached, hhas⟩ := h.executeNodes (F := F) (e := e) hb hm
    (s := ⟨scratch, values, false, false⟩) ⟨hscratch, hv⟩ rfl rfl
  obtain ⟨after, hafter, hfilled⟩ := h.executeResult hb hreached hhas
  obtain ⟨final, hfinal, hover⟩ := hfilled.clearNulls hv hm
  refine ⟨{ s with values := final }, ?_, hover, hreached.failed⟩
  exact Except.bind_eq_ok.2 ⟨s, hs, Except.bind_eq_ok.2 ⟨after, hafter,
    Except.bind_eq_ok.2 ⟨final, hfinal, rfl⟩⟩⟩

end

end Rnx.Columns
