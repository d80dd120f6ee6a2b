import Rnx.Http.Routes
import Rnx.Lib.Outcome
import Mathlib.Algebra.BigOperators.Group.List.Basic
import Mathlib.Algebra.GroupWithZero.Nat
import Mathlib.Data.List.Perm.Basic
import Mathlib.Data.List.Pairwise

/-!
# Accepted tables

What `Routes::decode` accepts, row by row and pair by pair (`decode_iff`): every row is a row of its
entry, the texts fit the limit together, and no two entries conflict.  None of these conditions
sees the order of the rows, so the permutations of an accepted table are accepted
(`decode_perm`).
-/

namespace Rnx

namespace Http

open Except (bind_eq_ok ite_error_eq_ok)

/-! ## Shapes -/

lemma alike_comm (s t : Segment) : alike s t = alike t s := by
  cases s <;> cases t <;> simp [alike, eq_comm]

lemma sameShape_comm (a b : List Segment) : sameShape a b = sameShape b a := by
  have hzip : ∀ a b : List Segment, ((a.zip b).all fun s => alike s.1 s.2)
      = (b.zip a).all fun s => alike s.1 s.2 := by
    intro a
    induction a with
    | nil => simp
    | cons s a ih =>
      intro b
      cases b with
      | nil => simp
      | cons t b => simp only [List.zip_cons_cons, List.all_cons, ih b, alike_comm s t]
  unfold sameShape
  rw [hzip a b, decide_eq_decide.2 (show a.length = b.length ↔ b.length = a.length from eq_comm)]

lemma alike_self (s : Segment) : alike s s = true := by cases s <;> simp [alike]

lemma sameShape_self (a : List Segment) : sameShape a a = true := by
  have hzip : ((a.zip a).all fun s => alike s.1 s.2) = true := by
    induction a with
    | nil => rfl
    | cons s a ih => simp [alike_self, ih]
  simp [sameShape, hzip]

/-! ## Rows -/

/-- Two entries that may stand in one table. -/
def Compatible (old e : Entry) : Prop :=
  sameShape old.segments e.segments = true → old.pattern = e.pattern ∧ old.method ≠ e.method

instance : Std.Symm Compatible where
  symm old e h := fun hs => by
    obtain ⟨hp, hm⟩ := h (by rwa [sameShape_comm])
    exact ⟨hp.symm, fun he => hm he.symm⟩

/-- The text an entry counts for: its pattern twice. -/
def Entry.weight (e : Entry) : Nat :=
  e.method.utf8ByteSize + e.pattern.utf8ByteSize + e.handler.utf8ByteSize + e.pattern.utf8ByteSize

/-- The row of an entry, and the checks that look at the row alone. -/
structure RowOf (p : Program) (row : Value) (e : Entry) : Prop where
  row : row = .tuple [.string e.method, .string e.pattern, .string e.handler]
  lengths : e.method.utf8ByteSize ≤ 32 ∧ e.pattern.utf8ByteSize ≤ 1024 ∧
    e.handler.utf8ByteSize ≤ 256
  method : ¬(e.method.isEmpty ∨ ¬e.method.toList.all methodChar)
  handler : handlerName p e.handler = true
  notHook : ¬hookNames.contains e.handler = true
  segments : pattern p e.pattern = .ok e.segments
  compiled : p.httpFunction e.handler = .ok (some 1)

lemma borrowedString_eq_ok {v : Value} {max : Nat} {s : String} :
    borrowedString v max = .ok s ↔ v = .string s ∧ s.utf8ByteSize ≤ max := by
  cases v with
  | string t =>
    rw [borrowedString, ite_error_eq_ok]
    constructor
    · rintro ⟨hlen, ht⟩
      cases ht
      exact ⟨rfl, Nat.le_of_not_lt hlen⟩
    · rintro ⟨ht, hlen⟩
      cases ht
      exact ⟨Nat.not_lt.2 hlen, rfl⟩
  | _ => simp [borrowedString]

lemma conflict_eq_ok {old e : Entry} :
    conflict old e.method e.pattern e.segments = .ok () ↔ Compatible old e := by
  unfold conflict Compatible
  by_cases hs : sameShape old.segments e.segments = true
  · rw [if_pos hs, ite_error_eq_ok, ite_error_eq_ok]
    simp [hs]
  · simp [hs]

lemma conflicts_eq_ok {e : Entry} {entries : List Entry} :
    conflicts e.method e.pattern e.segments entries = .ok () ↔
      ∀ old ∈ entries, Compatible old e := by
  induction entries with
  | nil => simp [conflicts]
  | cons old entries ih =>
    rw [conflicts, bind_eq_ok, List.forall_mem_cons, ← ih, ← conflict_eq_ok]
    exact ⟨fun ⟨(), h⟩ => h, fun h => ⟨(), h⟩⟩

/-- A row is decoded when it passes its own checks, the text limit and the earlier rows. -/
lemma decodeRow_iff {p : Program} {entries : List Entry} {text text' : Nat} {row : Value}
    {e : Entry} : decodeRow p entries text row = .ok (e, text') ↔
      RowOf p row e ∧ text' = text + e.weight ∧ text' ≤ maxText ∧
        ∀ old ∈ entries, Compatible old e := by
  constructor
  · intro h
    unfold decodeRow at h
    split at h
    · rename_i rawMethod rawPath rawHandler
      obtain ⟨method, hmethod, h⟩ := bind_eq_ok.1 h
      obtain ⟨path, hpath, h⟩ := bind_eq_ok.1 h
      obtain ⟨handler, hhandler, h⟩ := bind_eq_ok.1 h
      obtain ⟨hmethodOk, h⟩ := ite_error_eq_ok.1 h
      obtain ⟨hname, h⟩ := ite_error_eq_ok.1 h
      obtain ⟨hhook, h⟩ := ite_error_eq_ok.1 h
      obtain ⟨hlimit, h⟩ := ite_error_eq_ok.1 h
      obtain ⟨segments, hsegments, h⟩ := bind_eq_ok.1 h
      obtain ⟨_, hconflicts, h⟩ := bind_eq_ok.1 h
      obtain ⟨function, hfunction, h⟩ := bind_eq_ok.1 h
      obtain ⟨hone, h⟩ := ite_error_eq_ok.1 h
      obtain ⟨rfl, rfl⟩ := Prod.mk.inj (Except.ok.inj h)
      obtain ⟨rfl, hlm⟩ := borrowedString_eq_ok.1 hmethod
      obtain ⟨rfl, hlp⟩ := borrowedString_eq_ok.1 hpath
      obtain ⟨rfl, hlh⟩ := borrowedString_eq_ok.1 hhandler
      have hcompiled : p.httpFunction handler = .ok (some 1) := by
        rw [hfunction, not_not.1 hone]
      refine ⟨⟨rfl, ⟨hlm, hlp, hlh⟩, hmethodOk, not_not.1 hname, hhook, hsegments, hcompiled⟩,
        ?_, Nat.le_of_not_lt hlimit, ?_⟩
      · simp only [Entry.weight, Nat.add_assoc]
      · exact conflicts_eq_ok (e := ⟨method, path, handler, segments⟩).1 hconflicts
    · cases h
    · cases h
  · rintro ⟨hrow, rfl, hlimit, hold⟩
    obtain ⟨method, path, handler, segments⟩ := e
    obtain ⟨rfl, ⟨hlm, hlp, hlh⟩, hmethod, hname, hhook, hsegments, hcompiled⟩ := hrow
    have hweight : text + (method.utf8ByteSize + path.utf8ByteSize + handler.utf8ByteSize) +
        path.utf8ByteSize = text + (Entry.mk method path handler segments).weight := by
      simp only [Entry.weight, Nat.add_assoc]
    unfold decodeRow
    refine bind_eq_ok.2 ⟨method, borrowedString_eq_ok.2 ⟨rfl, hlm⟩, ?_⟩
    refine bind_eq_ok.2 ⟨path, borrowedString_eq_ok.2 ⟨rfl, hlp⟩, ?_⟩
    refine bind_eq_ok.2 ⟨handler, borrowedString_eq_ok.2 ⟨rfl, hlh⟩, ?_⟩
    refine ite_error_eq_ok.2 ⟨hmethod, ite_error_eq_ok.2 ⟨not_not.2 hname, ?_⟩⟩
    refine ite_error_eq_ok.2 ⟨hhook, ?_⟩
    dsimp only
    rw [hweight]
    refine ite_error_eq_ok.2 ⟨Nat.not_lt.2 hlimit, bind_eq_ok.2 ⟨segments, hsegments, ?_⟩⟩
    refine bind_eq_ok.2 ⟨(), conflicts_eq_ok (e := ⟨method, path, handler, segments⟩).2 hold, ?_⟩
    exact bind_eq_ok.2 ⟨some 1, hcompiled, ite_error_eq_ok.2 ⟨by simp, rfl⟩⟩

/-! ## Tables -/

/-- The rows after the first `entries`. -/
lemma decodeRows_iff {p : Program} {rows : List Value} {entries out : List Entry} {text : Nat}
    (ht : text ≤ maxText) : decodeRows p rows entries text = .ok out ↔
      ∃ new, out = entries ++ new ∧ List.Forall₂ (RowOf p) rows new ∧
        text + (new.map Entry.weight).sum ≤ maxText ∧
        (∀ old ∈ entries, ∀ e ∈ new, Compatible old e) ∧ new.Pairwise Compatible := by
  induction rows generalizing entries text with
  | nil =>
    constructor
    · intro h
      obtain rfl := Except.ok.inj h
      exact ⟨[], by simp, .nil, by simpa using ht, by simp, .nil⟩
    · rintro ⟨new, rfl, hrows, -⟩
      cases hrows
      simp [decodeRows]
  | cons row rows ih =>
    constructor
    · intro h
      unfold decodeRows at h
      split at h
      · cases h
      · rename_i e text' hrow
        obtain ⟨hof, rfl, hlimit, hold⟩ := decodeRow_iff.1 hrow
        obtain ⟨new, rfl, hrows, hsum, hcross, hpair⟩ := (ih hlimit).1 h
        refine ⟨e :: new, by simp, .cons hof hrows, ?_, ?_, ?_⟩
        · simpa [Nat.add_assoc] using hsum
        · intro old hmem e' he'
          rcases List.mem_cons.1 he' with rfl | he'
          · exact hold old hmem
          · exact hcross old (by simp [hmem]) e' he'
        · exact .cons (fun e' he' => hcross e (by simp) e' he') hpair
    · rintro ⟨new, rfl, hrows, hsum, hcross, hpair⟩
      obtain - | ⟨hof, hrows⟩ := hrows
      rename_i e new
      have hlimit : text + e.weight ≤ maxText := by
        simp only [List.map_cons, List.sum_cons] at hsum
        omega
      have hrow : decodeRow p entries text row = .ok (e, text + e.weight) :=
        decodeRow_iff.2 ⟨hof, rfl, hlimit, fun old hold => hcross old hold e (by simp)⟩
      unfold decodeRows
      rw [hrow]
      refine (ih hlimit).2 ⟨new, by simp, hrows, ?_, ?_, (List.pairwise_cons.1 hpair).2⟩
      · simpa [Nat.add_assoc] using hsum
      · intro old hold e' he'
        rcases List.mem_append.1 hold with hold | hlast
        · exact hcross old hold e' (by simp [he'])
        · obtain rfl := List.mem_singleton.1 hlast
          exact (List.pairwise_cons.1 hpair).1 e' he'

/-- What `decode` makes of its rows, as conditions that do not see their order. -/
structure Accepted (p : Program) (rows : List Value) (r : Routes) : Prop where
  count : rows.length ≤ maxRoutes
  rows : List.Forall₂ (RowOf p) rows r.entries
  text : (r.entries.map Entry.weight).sum ≤ maxText
  compatible : r.entries.Pairwise Compatible
  hooks : decodeHooks p hookNames = .ok r.hooks

theorem decode_iff {p : Program} {rows : List Value} {r : Routes} :
    decode p (.vector rows) = .ok r ↔ Accepted p rows r := by
  have hzero : 0 ≤ maxText := Nat.zero_le _
  rw [decode, ite_error_eq_ok, bind_eq_ok]
  constructor
  · rintro ⟨hcount, entries, hentries, h⟩
    obtain ⟨hooks, hhooks, h⟩ := bind_eq_ok.1 h
    obtain rfl := Except.ok.inj h
    obtain ⟨new, rfl, hrows, hsum, -, hpair⟩ := (decodeRows_iff hzero).1 hentries
    exact ⟨Nat.le_of_not_lt hcount, by simpa using hrows, by simpa using hsum, by simpa using hpair,
      hhooks⟩
  · rintro ⟨hcount, hrows, hsum, hpair, hhooks⟩
    refine ⟨Nat.not_lt.2 hcount, r.entries, (decodeRows_iff hzero).2 ?_, ?_⟩
    · exact ⟨r.entries, by simp, hrows, by simpa using hsum, by simp, hpair⟩
    · exact bind_eq_ok.2 ⟨r.hooks, hhooks, rfl⟩

/-- The permutations of an accepted table are accepted, with the entries permuted. -/
theorem Accepted.perm {p : Program} {rows rows' : List Value} {r : Routes}
    (h : Accepted p rows r) (hp : rows.Perm rows') :
    ∃ entries, entries.Perm r.entries ∧ Accepted p rows' ⟨entries, r.hooks⟩ := by
  obtain ⟨entries, hrows, hperm⟩ := List.perm_comp_forall₂ hp.symm h.rows
  refine ⟨entries, hperm, ⟨by rw [← hp.length_eq]; exact h.count, hrows, ?_, ?_, h.hooks⟩⟩
  · rw [(hperm.map Entry.weight).sum_nat]
    exact h.text
  · exact (hperm.pairwise_iff fun {a b} hab => Std.Symm.symm a b hab).2 h.compatible

namespace Accepted

variable {p : Program} {rows : List Value} {r : Routes}

lemma rowOf (h : Accepted p rows r) {e : Entry} (he : e ∈ r.entries) : ∃ row, RowOf p row e := by
  obtain ⟨hlen, hget⟩ := List.forall₂_iff_get.1 h.rows
  obtain ⟨i, hi, rfl⟩ := List.getElem_of_mem he
  exact ⟨rows.get ⟨i, hlen ▸ hi⟩, hget i (hlen ▸ hi) hi⟩

/-- Entries with one pattern have the same segments. -/
lemma segments_eq (h : Accepted p rows r) {a b : Entry} (ha : a ∈ r.entries)
    (hb : b ∈ r.entries) (hab : a.pattern = b.pattern) : a.segments = b.segments := by
  obtain ⟨_, hrowa⟩ := h.rowOf ha
  obtain ⟨_, hrowb⟩ := h.rowOf hb
  have hsegments := hrowa.segments
  rw [hab, hrowb.segments] at hsegments
  exact (Except.ok.inj hsegments).symm

/-- Entries of one shape have one pattern. -/
lemma pattern_eq (h : Accepted p rows r) {a b : Entry} (ha : a ∈ r.entries)
    (hb : b ∈ r.entries) (hs : sameShape a.segments b.segments = true) :
    a.pattern = b.pattern := by
  by_cases hab : a = b
  · rw [hab]
  · exact (h.compatible.forall ha hb hab hs).1

/-- A pattern has one entry for a method. -/
lemma method_inj (h : Accepted p rows r) {a b : Entry} (ha : a ∈ r.entries)
    (hb : b ∈ r.entries) (hp : a.pattern = b.pattern) (hm : a.method = b.method) : a = b := by
  by_contra hab
  have hs : sameShape a.segments b.segments = true := by
    rw [h.segments_eq ha hb hp]
    exact sameShape_self _
  exact (h.compatible.forall ha hb hab hs).2 hm

end Accepted

end Http

end Rnx
