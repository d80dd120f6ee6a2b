import Rnx.Store.Comparison

/-!
# The structural order

The comparison by recursion: a pair is decided at once, or by its children in order, those of a
sequence lexicographically and those of an object key by key, with one level of depth less.  The
walk with a stack comes to the same order or the same error, on every store and so also where
values contain themselves; only the storage of its stack can fail besides.
-/

namespace Rnx

open ErrState Decision

/-! ## The items of a sequence -/

/-- The items of a sequence, in order. -/
def Sequence.items : Sequence → List Item
  | values vs => vs.map .value
  | fields fs => fs.map fun f => .value f.2
  | pairs fs => fs.map fun f => .pair f.1.chars f.2
  | range start finish => (List.range (finish.val - start.val).toNat).filterMap fun i : Nat =>
      (I64.ofInt? (start.val + i)).map fun m => .value (.i64 m)
  | unsignedRange start finish => (List.range (finish.val - start.val)).filterMap fun i : Nat =>
      (U64.ofNat? (start.val + i)).map fun m => .value (.u64 m)
  | charRange start finish => (List.range' start.toNat (finish.toNat - start.toNat)).filterMap fun n =>
      (charFromU32 n).map fun c => .value (.char c)
  | one v => (v.map Item.value).toList
  | pair key v => [.text key, .value v]
  | bounds start finish => [.value start, .value finish]

/-- Where every element has an image, positions are kept. -/
lemma getElem?_filterMap_of_isSome {α β : Type} {f : α → Option β} {l : List α}
    (h : ∀ a ∈ l, (f a).isSome) (n : Nat) : (l.filterMap f)[n]? = l[n]?.bind f := by
  induction l generalizing n with
  | nil => rfl
  | cons a l ih =>
      obtain ⟨b, hb⟩ := Option.isSome_iff_exists.1 (h a List.mem_cons_self)
      rw [List.filterMap_cons_some hb]
      cases n with
      | zero => simpa using hb.symm
      | succ n => simpa using ih (fun x hx => h x (List.mem_cons_of_mem _ hx)) n

lemma charFromU32_isSome {n : Nat} : (charFromU32 n).isSome ↔ n.isValidChar := by
  unfold charFromU32
  by_cases h : n.isValidChar
  · rw [dif_pos h]
    exact iff_of_true rfl h
  · rw [dif_neg h]
    exact iff_of_false Bool.false_ne_true h

lemma charFromU32_eq_none {n : Nat} (h : ¬ n.isValidChar) : charFromU32 n = none := dif_neg h

lemma chars_isSome {k len : Nat} (h : ∀ i < len, (k + i).isValidChar) :
    ∀ m ∈ List.range' k len, ((charFromU32 m).map fun c => Item.value (.char c)).isSome := by
  intro m hm
  obtain ⟨i, hi, rfl⟩ := List.mem_range'.1 hm
  rw [Option.isSome_map, charFromU32_isSome, Nat.one_mul]
  exact h i hi

/-- The characters of codes that are all of characters. -/
lemma getElem?_chars {k len : Nat} (h : ∀ i < len, (k + i).isValidChar) (n : Nat) :
    ((List.range' k len).filterMap fun n => (charFromU32 n).map fun c => Item.value (.char c))[n]? =
      if n < len then (charFromU32 (k + n)).map fun c => .value (.char c) else none := by
  rw [getElem?_filterMap_of_isSome (chars_isSome h)]
  split_ifs with hn
  · rw [List.getElem?_range' hn, Nat.one_mul]
    rfl
  · rw [List.getElem?_eq_none (by rw [List.length_range']; omega)]
    rfl

lemma length_chars {k len : Nat} (h : ∀ i < len, (k + i).isValidChar) :
    ((List.range' k len).filterMap fun n =>
      (charFromU32 n).map fun c => Item.value (.char c)).length = len := by
  rw [List.filterMap_length_eq_length.2, List.length_range']
  exact chars_isSome h

/-- A run of numbers in three parts. -/
lemma range'_three {a b c d : Nat} (hab : a ≤ b) (hbc : b ≤ c) (hcd : c ≤ d) :
    List.range' a (d - a) =
      List.range' a (b - a) ++ (List.range' b (c - b) ++ List.range' c (d - c)) := by
  obtain ⟨i, rfl⟩ := Nat.exists_eq_add_of_le hab
  obtain ⟨j, rfl⟩ := Nat.exists_eq_add_of_le hbc
  obtain ⟨k, rfl⟩ := Nat.exists_eq_add_of_le hcd
  simp only [Nat.add_sub_cancel_left]
  rw [List.range'_append_1, List.range'_append_1]
  congr 1
  omega

/-- No code between the two blocks is of a character. -/
lemma filterMap_surrogates : ((List.range' 0xd800 (0xe000 - 0xd800)).filterMap fun n =>
    (charFromU32 n).map fun c => Item.value (.char c)) = [] := by
  rw [List.filterMap_eq_nil_iff]
  intro n hn
  obtain ⟨i, hi, rfl⟩ := List.mem_range'.1 hn
  rw [charFromU32_eq_none, Option.map_none]
  unfold Nat.isValidChar
  omega

lemma charOffset_eq {start : Char} {n : Nat} (h : start.toNat + n + 0x800 ≤ usizeMax) :
    charOffset start n = some (if start.toNat < 0xd800 ∧ 0xd800 ≤ start.toNat + n then
      start.toNat + n + 0x800 else start.toNat + n) := by
  unfold charOffset
  rw [checkedAdd_of_le (by omega)]
  show (if _ then _ else _) = _
  split_ifs
  · exact checkedAdd_of_le h
  · rfl

lemma charOffset_eq_some {start : Char} {n value : Nat} (h : charOffset start n = some value) :
    value = if start.toNat < 0xd800 ∧ 0xd800 ≤ start.toNat + n then start.toNat + n + 0x800
      else start.toNat + n := by
  unfold charOffset at h
  obtain ⟨m, hm, h⟩ := Option.bind_eq_some_iff.1 h
  obtain rfl := checkedAdd_eq_some hm
  split_ifs at h ⊢
  · exact checkedAdd_eq_some h
  · exact (Option.some.inj h).symm

/-- The offsets of a range of characters count its characters. -/
lemma get_charRange (start finish : Char) (n : Nat) :
    (Sequence.charRange start finish).get n = (Sequence.charRange start finish).items[n]? := by
  have hstart : start.toNat < 0xd800 ∨ 0xdfff < start.toNat ∧ start.toNat < 0x110000 := start.valid
  have hfinish : finish.toNat < 0xd800 ∨ 0xdfff < finish.toNat ∧ finish.toNat < 0x110000 :=
    finish.valid
  have hmax : usizeMax = 2 ^ 64 - 1 := rfl
  dsimp only [Sequence.get, Sequence.items]
  by_cases hfar : finish.toNat ≤ start.toNat + n
  · -- Past the end, also where the offset overflows.
    rw [List.getElem?_eq_none]
    · rcases hoffset : charOffset start n with _ | value
      · rfl
      · have := charOffset_eq_some hoffset
        exact if_pos (by split_ifs at this <;> omega)
    · apply (List.length_filterMap_le _ _).trans
      rw [List.length_range']
      omega
  · rw [charOffset_eq (by omega)]
    show (if _ then _ else _) = _
    by_cases hcross : start.toNat < 0xd800 ∧ 0xd800 ≤ finish.toNat
    · -- Two blocks of characters, with the surrogates between them.
      rw [range'_three (Nat.le_of_lt hcross.1) (by decide : 0xd800 ≤ 0xe000) (by omega),
        List.filterMap_append, List.filterMap_append, filterMap_surrogates, List.nil_append]
      have hbelow : ∀ i < 0xd800 - start.toNat, (start.toNat + i).isValidChar := by
        intro i hi
        exact .inl (by omega)
      have habove : ∀ i < finish.toNat - 0xe000, (0xe000 + i).isValidChar := by
        intro i hi
        exact .inr ⟨by omega, by omega⟩
      rw [List.getElem?_append, length_chars hbelow]
      by_cases hblock : 0xd800 ≤ start.toNat + n
      · have hcode : 0xe000 + (n - (0xd800 - start.toNat)) = start.toNat + n + 0x800 := by omega
        have hskip : start.toNat < 0xd800 ∧ 0xd800 ≤ start.toNat + n := ⟨hcross.1, hblock⟩
        rw [if_pos hskip, if_neg (by omega : ¬ n < 0xd800 - start.toNat), getElem?_chars habove,
          hcode]
        by_cases hend : start.toNat + n + 0x800 ≥ finish.toNat
        · rw [if_pos hend, if_neg (by omega)]
        · rw [if_neg hend, if_pos (by omega)]
      · have hstay : ¬ (start.toNat < 0xd800 ∧ 0xd800 ≤ start.toNat + n) := fun h => hblock h.2
        rw [if_neg hstay, if_neg (by omega), if_pos (by omega), getElem?_chars hbelow,
          if_pos (by omega)]
    · have hflat : ¬ (start.toNat < 0xd800 ∧ 0xd800 ≤ start.toNat + n) := by omega
      have hvalid : ∀ i < finish.toNat - start.toNat, (start.toNat + i).isValidChar := by
        intro i hi
        unfold Nat.isValidChar
        omega
      rw [if_neg hflat, if_neg (by omega), getElem?_chars hvalid, if_pos (by omega)]

/-- What is read at a position of a sequence is its item there. -/
lemma Sequence.get_eq (q : Sequence) (n : Nat) : q.get n = q.items[n]? := by
  cases q with
  | values vs => exact (List.getElem?_map ..).symm
  | fields fs => exact (List.getElem?_map ..).symm
  | pairs fs => exact (List.getElem?_map ..).symm
  | range start finish =>
      dsimp only [get, items]
      have hlower := start.lower
      have hupper := finish.upper
      rw [getElem?_filterMap_of_isSome]
      · split_ifs with hend
        · rw [List.getElem?_eq_none (by rw [List.length_range]; omega)]
          rfl
        · rw [List.getElem?_range (by omega)]
          rfl
      · intro i hi
        have hlt := List.mem_range.1 hi
        rw [Option.isSome_map]
        unfold I64.ofInt?
        rw [dif_pos ⟨by omega, by omega⟩]
        rfl
  | unsignedRange start finish =>
      dsimp only [get, items]
      have hupper := finish.upper
      rw [getElem?_filterMap_of_isSome]
      · split_ifs with hend
        · rw [List.getElem?_eq_none (by rw [List.length_range]; omega)]
          rfl
        · rw [List.getElem?_range (by omega)]
          rfl
      · intro i hi
        have hlt := List.mem_range.1 hi
        rw [Option.isSome_map]
        unfold U64.ofNat?
        rw [dif_pos (by omega)]
        rfl
  | charRange start finish => exact get_charRange start finish n
  | one v =>
      cases n with
      | zero => cases v <;> rfl
      | succ n => cases v <;> rfl
  | pair key v =>
      match n with
      | 0 => rfl
      | 1 => rfl
      | n + 2 => rfl
  | bounds start finish =>
      match n with
      | 0 => rfl
      | 1 => rfl
      | n + 2 => rfl

namespace Store

section

variable (F : FloatOps) (T : TypeTable) (op : Binary) (method : Bool)

/-! ## The recursion -/

/-- The order of two items, with so many levels of depth left. -/
def structuralOrder (s : Store) : Nat → Item → Item → Except Error (Option Ordering)
  | 0, _, _ => .error ((primitive .valueDepth).withDetail .valueDepth)
  | left + 1, a, b => do
      match ← s.relate F T op method a b with
      | .decided order => .ok order
      | .sequences xs ys =>
          lexicographic (some .eq) (some .lt) (some .gt) (s.structuralOrder left) xs.items ys.items
      | .objects xs ys =>
          matched (some .eq) (some .lt) (fun x => ys.find? fun y => y.1.chars = x.1.chars)
            (fun x y => s.structuralOrder left (.value x.2) (.value y.2)) xs

end

variable {F : FloatOps} {T : TypeTable} {op : Binary} {method : Bool} {s : Store}
  {room : Nat → Bool} {depth : Nat}

/-! ## The walk follows the recursion -/

lemma getElem?_of_drop {α : Type} {l : List α} {i : Nat} {a : α} {rest : List α}
    (h : l.drop i = a :: rest) : l[i]? = some a ∧ l.drop (i + 1) = rest := by
  constructor
  · rw [← Nat.add_zero i, ← List.getElem?_drop, h]
    rfl
  · rw [← List.drop_drop, h]
    rfl

lemma getElem?_of_drop_nil {α : Type} {l : List α} {i : Nat} (h : l.drop i = []) :
    l[i]? = none := by
  rw [← Nat.add_zero i, ← List.getElem?_drop, h]
  rfl

lemma comparing_handle (t : Task) :
    (s.comparing F T op method room).handle t = s.compareTask F T op method t := rfl

lemma comparing_neutral : (s.comparing F T op method room).neutral = some .eq := rfl

/-- Two sequences are walked item by item. -/
lemma settles_sequence {f : Item → Item → Except Error (Option Ordering)} (a b : Sequence)
    (hpair : ∀ x y, (s.comparing F T op method room).Settles [.pair x y (depth + 1)] (f x y))
    (xs ys : List Item) (i : Nat) (hxs : a.items.drop i = xs) (hys : b.items.drop i = ys) :
    (s.comparing F T op method room).Settles [.sequence a b i depth]
      (lexicographic (some .eq) (some .lt) (some .gt) f xs ys) := by
  induction xs generalizing ys i with
  | nil =>
      have hx := (a.get_eq i).trans (getElem?_of_drop_nil hxs)
      cases ys with
      | nil =>
          have hy := (b.get_eq i).trans (getElem?_of_drop_nil hys)
          apply Engine.Settles.answer
          simp only [comparing_handle, compareTask, hx, hy]
      | cons y ys =>
          have hy := (b.get_eq i).trans (getElem?_of_drop hys).1
          apply Engine.Settles.answer
          simp only [comparing_handle, compareTask, hx, hy]
  | cons x xs ih =>
      have hx := (a.get_eq i).trans (getElem?_of_drop hxs).1
      cases ys with
      | nil =>
          have hy := (b.get_eq i).trans (getElem?_of_drop_nil hys)
          apply Engine.Settles.answer
          simp only [comparing_handle, compareTask, hx, hy]
      | cons y ys =>
          have hy := (b.get_eq i).trans (getElem?_of_drop hys).1
          have hask : (s.comparing F T op method room).handle (.sequence a b i depth) =
              .ok (.ask [.pair x y (depth + 1), .sequence a b (i + 1) depth]) := by
            simp only [comparing_handle, compareTask, hx, hy]
          apply Engine.Settles.ask hask
          exact (hpair x y).append
            (ih ys (i + 1) (getElem?_of_drop hxs).2 (getElem?_of_drop hys).2)

/-- Two objects are walked key by key. -/
lemma settles_object {f : Item → Item → Except Error (Option Ordering)}
    (a b : List (Text × Value))
    (hpair : ∀ x y, (s.comparing F T op method room).Settles [.pair x y (depth + 1)] (f x y))
    (xs : List (Text × Value)) (i : Nat) (hxs : a.drop i = xs) :
    (s.comparing F T op method room).Settles [.object a b i depth]
      (matched (some .eq) (some .lt) (fun x => b.find? fun y => y.1.chars = x.1.chars)
        (fun x y => f (.value x.2) (.value y.2)) xs) := by
  induction xs generalizing i with
  | nil =>
      apply Engine.Settles.answer
      simp only [comparing_handle, compareTask, getElem?_of_drop_nil hxs]
  | cons x xs ih =>
      obtain ⟨key, v⟩ := x
      obtain ⟨hx, hrest⟩ := getElem?_of_drop hxs
      unfold matched
      dsimp only
      rcases hfind : b.find? fun y => y.1.chars = key.chars with _ | ⟨key', w⟩
      · rw [hfind]
        apply Engine.Settles.answer
        simp only [comparing_handle, compareTask, hx, hfind]
      · have hask : (s.comparing F T op method room).handle (.object a b i depth) =
            .ok (.ask [.pair (.value v) (.value w) (depth + 1), .object a b (i + 1) depth]) := by
          simp only [comparing_handle, compareTask, hx, hfind]
        rw [hfind]
        apply Engine.Settles.ask hask
        exact (hpair (.value v) (.value w)).append (ih (i + 1) hrest)

/-- A pair comes to the order of its items, with the levels of depth that are left. -/
lemma settles_pair (left : Nat) (a b : Item) (hdepth : depth + left = depthLimit method + 1) :
    (s.comparing F T op method room).Settles [.pair a b depth]
      (s.structuralOrder F T op method left a b) := by
  induction left generalizing a b depth with
  | zero =>
      apply Engine.Settles.error
      exact if_pos (by omega)
  | succ left ih =>
      have hin : ¬ depth > depthLimit method := by omega
      have hpair : ∀ x y, (s.comparing F T op method room).Settles [.pair x y (depth + 1)]
          (s.structuralOrder F T op method left x y) := fun x y => ih x y (by omega)
      have hhandle : (s.comparing F T op method room).handle (.pair a b depth) = _ := if_neg hin
      unfold structuralOrder
      rcases hrelate : s.relate F T op method a b with e | r
      · rw [hrelate] at hhandle
        exact Engine.Settles.error hhandle
      · rw [hrelate] at hhandle
        cases r with
        | decided order => exact Engine.Settles.answer hhandle
        | sequences xs ys =>
            exact Engine.Settles.ask hhandle (settles_sequence xs ys hpair _ _ 0 rfl rfl)
        | objects xs ys =>
            exact Engine.Settles.ask hhandle (settles_object xs ys hpair xs 0 rfl)

/-- On every store, and so also on values that contain themselves, the comparison ends: with the
structural order of the two values cut at the depth limit, or its error, and only if a push of the
stack is refused with an allocation error.  The store is the one it was. -/
theorem ordering_structural (s : Store) (F : FloatOps) (T : TypeTable) (op : Binary)
    (method : Bool) (room : Nat → Bool) (a b : Value) :
    ∃ n, ∀ fuel, n ≤ fuel →
      ordering F T op method room fuel a b s =
          ((s.structuralOrder F T op method (depthLimit method) (.value a) (.value b)).map some, s) ∨
        ((∃ i, room i = false) ∧ ordering F T op method room fuel a b s = (.error allocError, s)) := by
  have hsettles : (s.comparing F T op method room).Settles [.pair (.value a) (.value b) 1]
      (s.structuralOrder F T op method (depthLimit method) (.value a) (.value b)) :=
    settles_pair _ _ _ (Nat.add_comm _ _)
  obtain ⟨n, hn⟩ := hsettles.run
  refine ⟨n, fun fuel hfuel => ?_⟩
  obtain hrun | ⟨hrefuses, hrun⟩ := hn fuel hfuel
  · exact .inl (ordering_answered hrun)
  · exact .inr ⟨hrefuses, ordering_answered hrun⟩

end Store

end Rnx
