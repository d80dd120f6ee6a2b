import Rnx.Columns.Faults

/-!
# First faults are exact

The kernel of a block raises its flag exactly when a row the mask selects overflows, whichever
loop ran, and then the rescan finds the first such row and its first failing instruction: it
never reaches its unreachable end.
-/

namespace Rnx.Columns

open Packed Exec

/-! ## The rescan -/

/-- Row `j` is the first of the selected rows that faults, and node `k` the first of its nodes. -/
structure Block.FirstFault (F : FloatOps) (p : PreparedColumn) (b : Block) (mask : Option Word)
    (j k : Nat) : Prop where
  row : j < b.n
  selected : selects mask j = true
  node : FirstFaulty F p.nodes (b.input j) k
  before : ∀ i, i < j → selects mask i = true → ¬Faulty F p.nodes (b.input i)

/-- Some selected row of the block faults. -/
def Block.Faulty (F : FloatOps) (p : PreparedColumn) (b : Block) (mask : Option Word) : Prop :=
  ∃ j, j < b.n ∧ selects mask j = true ∧ Columns.Faulty F p.nodes (b.input j)

section

variable {F : FloatOps} {p : PreparedColumn} {b : Block} {mask : Option Word}

/-- Reading a row of an input. -/
lemma input_spec {inputs : List ColumnType} (hb : b.Fits inputs) {c : Nat} {ty : ColumnType}
    (hc : inputs[c]? = some ty) {j : Nat} (hj : j < b.n) :
    ∃ column offset, b.inputs[c]? = some (column, offset) ∧
      input column (offset + j) = .ok (b.input j c) := by
  obtain ⟨column, offset, hat, -, hlen⟩ := hb.input c ty hc
  have hinput : b.input j c = column.at (offset + j) := by
    rw [Block.input, hat]
  refine ⟨column, offset, hat, ?_⟩
  rw [hinput]
  cases column with
  | i64 v =>
    have hlt : offset + j < v.length := by
      have : offset + b.n ≤ v.length := hlen
      omega
    rw [input, ColumnSlice.at, List.getElem?_eq_getElem hlt]
    simp [hlt]
  | f64 v =>
    have hlt : offset + j < v.length := by
      have : offset + b.n ≤ v.length := hlen
      omega
    rw [input, ColumnSlice.at, List.getElem?_eq_getElem hlt]
    simp [hlt]
  | bool v =>
    have hlt : offset + j < v.len := by
      have : offset + b.n ≤ v.len := hlen
      omega
    rw [input, BitSlice.get, if_neg (by omega)]
    rfl

/-- A step of the rescan computes the lane of its node. -/
lemma rowStep_spec (ht : Typed p.inputs p.nodes) (hb : b.Fits p.inputs) {j k : Nat} (hj : j < b.n)
    (hk : k < p.nodes.length) {rowValues : List Word}
    (hheld : ∀ a, a < k → rowValues[a]? = some (lane F p.nodes (b.input j) a).1) :
    rowStep F p.nodes b j rowValues (nodeAt p.nodes k).step = .ok (lane F p.nodes (b.input j) k) := by
  have hn : TypedStep p.inputs p.nodes k _ _ := ht k hk
  rw [lane_of_typed ht hk]
  rcases hs : (nodeAt p.nodes k).step with c | v | ⟨op, x, y⟩ | x <;> rw [hs] at hn
  · obtain ⟨column, offset, hat, hinput⟩ := input_spec hb hn hj
    exact Except.bind_eq_ok.2 ⟨(column, offset), by rw [hat]; rfl,
      Except.bind_eq_ok.2 ⟨_, hinput, rfl⟩⟩
  · rfl
  · exact Except.bind_eq_ok.2 ⟨_, by rw [hheld x hn.1]; rfl,
      Except.bind_eq_ok.2 ⟨_, by rw [hheld y hn.2.1]; rfl, rfl⟩⟩
  · exact Except.bind_eq_ok.2 ⟨_, by rw [hheld x hn.1]; rfl, rfl⟩

/-- The rest of a row whose nodes so far did not fault. -/
lemma scanRow_spec (ht : Typed p.inputs p.nodes) (hb : b.Fits p.inputs) {j : Nat} (hj : j < b.n)
    {rest : List Node} {i : Nat} (hrest : p.nodes.drop i = rest) {rowValues : List Word}
    (hlen : rowValues.length = p.nodes.length)
    (hheld : ∀ a, a < i → rowValues[a]? = some (lane F p.nodes (b.input j) a).1)
    (hclean : ∀ a, a < i → (lane F p.nodes (b.input j) a).2 = false) :
    ∃ r, scanRow F p.nodes b j rest i rowValues = .ok r ∧ r.2.length = p.nodes.length ∧
      ((∃ k, FirstFaulty F p.nodes (b.input j) k ∧ r.1 = some (nodeAt p.nodes k).pc) ∨
        (¬Columns.Faulty F p.nodes (b.input j) ∧ r.1 = none)) := by
  induction rest generalizing i rowValues with
  | nil =>
    have hi : p.nodes.length ≤ i := List.drop_eq_nil_iff.1 hrest
    refine ⟨_, rfl, hlen, .inr ⟨?_, rfl⟩⟩
    rintro ⟨k, hk, hf⟩
    rw [hclean k (by omega)] at hf
    cases hf
  | cons node rest ih =>
    have hi : i < p.nodes.length := by
      by_contra hge
      rw [List.drop_eq_nil_of_le (by omega)] at hrest
      cases hrest
    rw [List.drop_eq_getElem_cons hi] at hrest
    obtain ⟨hnode, hrest⟩ := List.cons.inj hrest
    have hat : nodeAt p.nodes i = node := by
      rw [← hnode]
      simp [nodeAt, hi]
    have hstep := rowStep_spec (F := F) ht hb hj hi hheld
    rw [hat] at hstep
    rw [scanRow, hstep]
    rcases hf : (lane F p.nodes (b.input j) i).2
    · have hnext := @ih (i + 1) hrest (rowValues.set i (lane F p.nodes (b.input j) i).1)
        (by rw [List.length_set]; exact hlen)
        (fun a ha => by
          rw [List.getElem?_set]
          rcases Nat.lt_or_eq_of_le (Nat.le_of_lt_succ ha) with hlt | rfl
          · rw [if_neg (by omega)]
            exact hheld a hlt
          · rw [if_pos rfl, if_pos (by omega)])
        (fun a ha => by
          rcases Nat.lt_or_eq_of_le (Nat.le_of_lt_succ ha) with hlt | rfl
          · exact hclean a hlt
          · exact hf)
      obtain ⟨r, hr, hspec⟩ := hnext
      refine ⟨r, ?_, hspec⟩
      change (if (lane F p.nodes (b.input j) i).2 = true then _ else _) = _
      rw [hf, if_neg Bool.false_ne_true, if_pos (by omega)]
      exact hr
    · refine ⟨(some node.pc, rowValues), ?_, hlen, .inl ⟨i, ⟨hi, hf, hclean⟩, by rw [hat]⟩⟩
      change (if (lane F p.nodes (b.input j) i).2 = true then _ else _) = _
      rw [hf]
      rfl

/-- The rows from `j` on, when one of them faults and none before did. -/
lemma scanRows_spec (ht : Typed p.inputs p.nodes) (hb : b.Fits p.inputs) {count j : Nat}
    (hcount : j + count = b.n) {rowValues : List Word} (hlen : rowValues.length = p.nodes.length)
    (hbefore : ∀ i, i < j → selects mask i = true → ¬Columns.Faulty F p.nodes (b.input i))
    (hfaulty : b.Faulty F p mask) :
    ∃ i k, b.FirstFault F p mask i k ∧ scanRows F p b mask count j rowValues
      = .ok (.arithmetic, some ⟨b.row + i, (nodeAt p.nodes k).pc⟩) := by
  induction count generalizing j rowValues with
  | zero =>
    obtain ⟨i, hi, hsel, hf⟩ := hfaulty
    exact absurd hf (hbefore i (by omega) hsel)
  | succ count ih =>
    have hskip : (selects mask j = true → ¬Columns.Faulty F p.nodes (b.input j)) →
        ∀ i, i < j + 1 → selects mask i = true → ¬Columns.Faulty F p.nodes (b.input i) := by
      intro hj i hi hsel
      rcases Nat.lt_or_eq_of_le (Nat.le_of_lt_succ hi) with hlt | rfl
      · exact hbefore i hlt hsel
      · exact hj hsel
    by_cases hsel : selects mask j = true
    · obtain ⟨r, hr, hlen', hcase⟩ := scanRow_spec (F := F) (j := j) (i := 0) ht hb (by omega)
        (List.drop_zero) hlen (fun a ha => absurd ha (Nat.not_lt_zero a))
        (fun a ha => absurd ha (Nat.not_lt_zero a))
      rw [scanRows, if_pos hsel, hr]
      rcases hcase with ⟨k, hk, hpc⟩ | ⟨hclean, hnone⟩
      · refine ⟨j, k, ⟨by omega, hsel, hk, hbefore⟩, ?_⟩
        obtain ⟨found, values⟩ := r
        obtain rfl : found = _ := hpc
        rfl
      · obtain ⟨i, k, hfirst, hscan⟩ := ih (j := j + 1) (by omega) hlen' (hskip fun _ => hclean)
        refine ⟨i, k, hfirst, ?_⟩
        obtain ⟨found, values⟩ := r
        obtain rfl : found = none := hnone
        exact hscan
    · obtain ⟨i, k, hfirst, hscan⟩ := ih (j := j + 1) (by omega) hlen
        (hskip fun h => absurd h hsel)
      refine ⟨i, k, hfirst, ?_⟩
      rw [scanRows, if_neg hsel]
      exact hscan

/-- `first_fault` on a block with a selected row that faults. -/
theorem firstFault_spec (ht : Typed p.inputs p.nodes) (hb : b.Fits p.inputs)
    {rowValues : List Word} (hlen : rowValues.length = p.nodes.length)
    (hfaulty : b.Faulty F p mask) :
    ∃ j k, b.FirstFault F p mask j k ∧ firstFault F p b mask rowValues
      = .ok (.arithmetic, some ⟨b.row + j, (nodeAt p.nodes k).pc⟩) :=
  scanRows_spec ht hb (Nat.zero_add b.n) hlen (fun _ hi => absurd hi (Nat.not_lt_zero _)) hfaulty

/-- How a block ends: without a fault in a selected row, or with the first one. -/
def Block.Exact (F : FloatOps) (p : PreparedColumn) (b : Block) (mask : Option Word) {α : Type}
    (m : Except Stop α) : Prop :=
  (¬b.Faulty F p mask ∧ ∃ done, m = .ok done) ∨
    ∃ j k, b.FirstFault F p mask j k ∧
      m = .error (.replay .arithmetic (some ⟨b.row + j, (nodeAt p.nodes k).pc⟩))

/-- A flag that is raised for the selected rows that fault is reported exactly. -/
lemma exact_report (ht : Typed p.inputs p.nodes) (hb : b.Fits p.inputs) {rowValues : List Word}
    (hlen : b.Faulty F p mask → rowValues.length = p.nodes.length) {failed : Bool}
    (hfailed : failed = true ↔ b.Faulty F p mask) {α : Type} (done : α) :
    b.Exact F p mask (report F p b mask rowValues failed done) := by
  cases hf : failed with
  | false =>
    refine .inl ⟨fun h => ?_, done, rfl⟩
    rw [hfailed.2 h] at hf
    cases hf
  | true =>
    have hfaulty := hfailed.1 hf
    obtain ⟨j, k, hfirst, hscan⟩ := firstFault_spec ht hb (hlen hfaulty) hfaulty
    refine .inr ⟨j, k, hfirst, ?_⟩
    rw [report, if_pos rfl, hscan]
    rfl

end

end Rnx.Columns
