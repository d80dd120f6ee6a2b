import Rnx.Columns.Kernels

/-!
# The output of a batch, lane by lane

An output is a lane for every row, whatever its storage: writing a block replaces the lanes of its
rows and no other (`writeOutput_spec`), and reading a block gives them back (`outputValue_spec`).
A Boolean lane is read back as zero or one.
-/

namespace Rnx.Columns

open Packed

/-- The lane of a row. -/
def ColumnValues.at (values : ColumnValues) (q : Nat) : Word :=
  match values with
  | .i64 v => v.getD q 0
  | .f64 v => v.getD q 0
  | .bool bytes => Columns.bool (bitAt bytes q)

namespace ColumnValues

/-- The type of the lanes. -/
def columnType : ColumnValues → ColumnType
  | .i64 _ => .i64
  | .f64 _ => .f64
  | .bool _ => .bool

/-- The number of lanes there is storage for. -/
def room : ColumnValues → Nat
  | .i64 v => v.length
  | .f64 v => v.length
  | .bool bytes => 8 * bytes.length

/-- Storage of a type for the rows below `stop`. -/
structure Holds (values : ColumnValues) (ty : ColumnType) (stop : Nat) : Prop where
  type : values.columnType = ty
  room : stop ≤ values.room
  bounded : stop ≤ usizeMax

/-- The same rows with the lanes from `row` on replaced. -/
structure Overwritten (before after : ColumnValues) (row n : Nat) (lane : Nat → Word) : Prop where
  type : after.columnType = before.columnType
  room : after.room = before.room
  inside : ∀ j, j < n → after.at (row + j) = lane j
  outside : ∀ q, q < row ∨ row + n ≤ q → after.at q = before.at q

lemma Overwritten.holds {before after : ColumnValues} {row n : Nat} {lane : Nat → Word}
    (h : Overwritten before after row n lane) {ty : ColumnType} {stop : Nat}
    (hb : before.Holds ty stop) : after.Holds ty stop :=
  ⟨h.type.trans hb.type, h.room ▸ hb.room, hb.bounded⟩

end ColumnValues

/-- A lane as it is read back from storage of a type. -/
def ColumnType.readBack (ty : ColumnType) (w : Word) : Word :=
  match ty with
  | .bool => Columns.bool (w != 0)
  | _ => w

lemma readBack_of_wordOf {ty : ColumnType} {w : Word} (h : WordOf ty w) : ty.readBack w = w := by
  cases ty
  · rfl
  · rfl
  · exact bool_of_wordOf h

/-! ## Bits -/

lemma bitAt_set (bytes : List (BitVec 8)) {i : Nat} (hi : i < bytes.length) (byte : BitVec 8)
    (q : Nat) :
    bitAt (bytes.set i byte) q = if q / 8 = i then byte.getLsbD (q % 8) else bitAt bytes q := by
  unfold bitAt
  rw [List.getD_eq_getElem?_getD, List.getElem?_set]
  by_cases h : i = q / 8
  · rw [if_pos h, if_pos hi, if_pos h.symm]
    rfl
  · rw [if_neg h, if_neg (fun he => h he.symm), List.getD_eq_getElem?_getD]

/-- `Destination::put` sets one bit. -/
lemma put_spec {bytes : List (BitVec 8)} {bit : Nat} (h : bit < 8 * bytes.length) (value : Word) :
    ∃ after, Destination.put bytes bit value = .ok after ∧ after.length = bytes.length ∧
      ∀ q, bitAt after q = if q = bit then value != 0 else bitAt bytes q := by
  have hi : bit / 8 < bytes.length := by omega
  have hmask : ∀ k, k < 8 → ((1 : BitVec 8) <<< (bit % 8)).getLsbD k = decide (k = bit % 8) := by
    intro k hk
    rw [show (1 : BitVec 8) = 1#8 from rfl, BitVec.getLsbD_shiftLeft, BitVec.getLsbD_one,
      Bool.eq_iff_iff]
    simp only [Bool.and_eq_true, decide_eq_true_eq, Bool.not_eq_true', decide_eq_false_iff_not]
    omega
  unfold Destination.put
  rw [List.getElem?_eq_getElem hi]
  refine ⟨_, rfl, List.length_set, fun q => ?_⟩
  have hq : q % 8 < 8 := Nat.mod_lt _ (by omega)
  rw [bitAt_set bytes hi]
  by_cases hb : q / 8 = bit / 8
  · have hold : bitAt bytes q = bytes[bit / 8].getLsbD (q % 8) := by
      rw [bitAt, hb]
      simp [hi]
    rw [if_pos hb, hold, BitVec.getLsbD_or, BitVec.getLsbD_and, BitVec.getLsbD_not, hmask _ hq]
    by_cases he : q = bit
    · subst he
      by_cases hv : value = 0
      · simp [hv]
      · rw [if_pos hv, hmask _ hq, if_pos rfl, bne_iff_ne.2 hv]
        simp
    · have hne : ¬ q % 8 = bit % 8 := by omega
      rw [if_neg he]
      by_cases hv : value = 0
      · simp [hv, hne, hq]
      · rw [if_pos hv, hmask _ hq]
        simp [hne, hq]
  · rw [if_neg hb, if_neg (fun he => hb (by rw [he]))]

lemma putAll_spec {bytes : List (BitVec 8)} {bit : Nat} {lanes : List Word}
    (h : bit + lanes.length ≤ 8 * bytes.length) :
    ∃ after, putAll bytes bit lanes = .ok after ∧ after.length = bytes.length ∧
      (∀ j, j < lanes.length → bitAt after (bit + j) = (lanes.getD j 0 != 0)) ∧
      ∀ q, q < bit ∨ bit + lanes.length ≤ q → bitAt after q = bitAt bytes q := by
  induction lanes generalizing bytes bit with
  | nil => exact ⟨bytes, rfl, rfl, fun j hj => absurd hj (Nat.not_lt_zero j), fun _ _ => rfl⟩
  | cons lane lanes ih =>
    rw [List.length_cons] at h
    obtain ⟨b₁, hput, hl₁, h₁⟩ := @put_spec bytes bit (by omega) lane
    obtain ⟨after, hall, hl, hin, hout⟩ := @ih b₁ (bit + 1) (by omega)
    refine ⟨after, ?_, hl.trans hl₁, fun j hj => ?_, fun q hq => ?_⟩
    · rw [putAll, hput]
      exact hall
    · cases j with
      | zero =>
        rw [hout _ (.inl (by omega)), h₁, if_pos (by omega)]
        rfl
      | succ j =>
        have := hin j (by simpa using hj)
        rw [show bit + (j + 1) = bit + 1 + j by omega, this]
        rfl
    · rw [List.length_cons] at hq
      rw [hout q (by omega), h₁, if_neg (by omega)]

/-! ## Blocks of the output -/

section

variable {values : ColumnValues} {ty : ColumnType} {row n : Nat}

/-- Overwriting words. -/
lemma splice_lanes (v lanes : List Word) (row : Nat) (h : row + lanes.length ≤ v.length) :
    ∃ after, splice? v row lanes = some after ∧ after.length = v.length ∧
      (∀ j, j < lanes.length → after.getD (row + j) 0 = lanes.getD j 0) ∧
      ∀ q, q < row ∨ row + lanes.length ≤ q → after.getD q 0 = v.getD q 0 := by
  obtain ⟨after, ha, hl, hget⟩ := splice?_spec h 0
  refine ⟨after, ha, hl, fun j hj => ?_, fun q hq => ?_⟩
  · rw [hget, if_pos (by omega), Nat.add_sub_cancel_left]
  · rw [hget, if_neg (by omega)]

lemma writeOutput_spec (hv : values.Holds ty (row + n)) {lanes : List Word}
    (hl : lanes.length = n) :
    ∃ after, writeOutput values row lanes = .ok after ∧
      values.Overwritten after row n fun j => ty.readBack (lanes.getD j 0) := by
  have htype := hv.type
  have hroom := hv.room
  subst hl
  cases values with
  | i64 v =>
    obtain rfl : .i64 = ty := htype
    obtain ⟨after, ha, hlen, hin, hout⟩ := splice_lanes v lanes row hroom
    exact ⟨.i64 after, by rw [writeOutput, ha]; rfl, rfl, hlen, hin, hout⟩
  | f64 v =>
    obtain rfl : .f64 = ty := htype
    obtain ⟨after, ha, hlen, hin, hout⟩ := splice_lanes v lanes row hroom
    exact ⟨.f64 after, by rw [writeOutput, ha]; rfl, rfl, hlen, hin, hout⟩
  | bool bytes =>
    obtain rfl : .bool = ty := htype
    obtain ⟨after, ha, hlen, hin, hout⟩ := @putAll_spec bytes row lanes hroom
    refine ⟨.bool after, by rw [writeOutput, ha]; rfl, rfl, congrArg (8 * ·) hlen, ?_, ?_⟩
    · exact fun j hj => congrArg Columns.bool (hin j hj)
    · exact fun q hq => congrArg Columns.bool (hout q hq)

/-- Reading a block of the output. -/
lemma outputValue_spec (hv : values.Holds ty (row + n)) :
    ∃ x, outputValue values row n = .ok x ∧ (∀ j, j < n → x.at j = values.at (row + j)) ∧
      (ty ≠ .bool → x.Words n) := by
  have htype := hv.type
  have hroom := hv.room
  cases values with
  | i64 v =>
    refine ⟨.words ((v.drop row).take n), ?_, fun j hj => getD_slice 0 hj, fun _ => ?_⟩
    · rw [outputValue, slice?_eq hroom]
      rfl
    · exact length_slice hroom
  | f64 v =>
    refine ⟨.words ((v.drop row).take n), ?_, fun j hj => getD_slice 0 hj, fun _ => ?_⟩
    · rw [outputValue, slice?_eq hroom]
      rfl
    · exact length_slice hroom
  | bool bytes =>
    obtain rfl : .bool = ty := htype
    have hstored : (row + n + 7) / 8 ≤ bytes.length := by
      have : row + n ≤ 8 * bytes.length := hroom
      omega
    refine ⟨.bits ⟨bytes, row, n, hv.bounded, hstored⟩ 0, ?_, fun j hj => ?_, fun h => absurd rfl h⟩
    · rw [outputValue, BitSlice.new, dif_pos hv.bounded, dif_pos hstored]
    · rw [Lanes.at, BitSlice.bit, Nat.zero_add]
      rfl

/-- Clearing the null lanes of an output of integers. -/
lemma clearNulls_spec {b : Block} {m : Word} {v : List Word}
    (hv : (ColumnValues.i64 v).Holds .i64 (b.row + b.n)) (hn : b.n ≤ 64) :
    ∃ after, clearNulls b (some m) (.i64 v) = .ok after ∧
      (ColumnValues.i64 v).Overwritten after b.row b.n fun j =>
        if valid m j then v.getD (b.row + j) 0 else 0 := by
  have hroom : b.row + b.n ≤ v.length := hv.room
  have hpart := length_slice hroom
  obtain ⟨after, ha, hlen, hin, hout⟩ := splice_lanes v
    (Engine.zeroI64 ((v.drop b.row).take b.n) m) b.row (by
      rw [Engine.length_zeroI64, hpart]
      exact hroom)
  rw [Engine.length_zeroI64, hpart] at hin hout
  refine ⟨.i64 after, ?_, rfl, hlen, fun j hj => ?_, hout⟩
  · rw [clearNulls, slice?_eq hroom]
    change (if 64 < b.n then Except.error Stop.panic else _) = _
    rw [if_neg (by omega), ha]
    rfl
  · refine (hin j hj).trans ?_
    rw [Engine.getD_zeroI64 (by rw [hpart]; exact hj), getD_slice 0 hj]

end

end Rnx.Columns
