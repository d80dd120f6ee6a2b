import Rnx.Http.Tables

/-!
# Route selection is the declared precedence

Two rows that match one path either have one pattern, or one of their patterns prefers a literal
at the leftmost segment where they differ (`prefers_or_pattern`).  So `more_specific` is a strict
order on the rows that match, the champion's pattern is the one that prefers over all others, and
every later step of `select` sees only that pattern and its rows.  Nothing of this depends on the
order of the table (`select_precedence`).
-/

namespace Rnx

namespace Http

open Std (TreeMap TreeSet)
open Except (bind_eq_ok ite_error_eq_ok)

/-! ## The declared precedence -/

/-- Pattern `a` has a literal and pattern `b` a parameter at the leftmost segment where they
differ. -/
def Prefers (a b : List Segment) : Prop :=
  ∃ (i : Nat) (x y : String), a[i]? = some (.literal x) ∧ b[i]? = some (.param y) ∧
    ∀ j, j < i → ∃ s t, a[j]? = some s ∧ b[j]? = some t ∧ alike s t = true

/-- The pattern of `e` decides: it matches, and it prefers over every other pattern that does. -/
structure Decides (r : Routes) (parts : List String) (e : Entry) : Prop where
  mem : e ∈ r.entries
  fits : e.fits parts = true
  prefers : ∀ e' ∈ r.entries, e'.fits parts = true →
    e'.pattern = e.pattern ∨ Prefers e.segments e'.segments

/-- The row a method selects among the rows of a pattern. -/
def Serves (r : Routes) (pattern method : String) (row : Entry) : Prop :=
  row ∈ r.entries ∧ row.pattern = pattern ∧
    (row.method = method ∨ (method = "HEAD" ∧ row.method = "GET" ∧
      ∀ other ∈ r.entries, other.pattern = pattern → other.method ≠ "HEAD"))

/-- The order of the methods in an answer: the known ones first, then the alphabet. -/
def Before (a b : String) : Prop :=
  knownMethods.idxOf a < knownMethods.idxOf b ∨
    (a ∉ knownMethods ∧ b ∉ knownMethods ∧ compare a b = .lt)

/-- The methods that are listed for a pattern. -/
structure Lists (r : Routes) (pattern : String) (methods : List String) : Prop where
  mem : ∀ m, m ∈ methods ↔ (∃ row ∈ r.entries, row.pattern = pattern ∧ row.method = m) ∨
    (m = "HEAD" ∧ ∃ row ∈ r.entries, row.pattern = pattern ∧ row.method = "GET")
  ordered : methods.Pairwise Before

/-- The parameters of a match: each name of the pattern with its decoded part. -/
def Binds (e : Entry) (parts : List String) (params : TreeMap String String) : Prop :=
  ∀ name value, params[name]? = some value ↔
    ∃ part, (Segment.param name, part) ∈ e.segments.zip parts ∧ percent part = .ok value

/-- The answers of the declared precedence. -/
inductive Answers (r : Routes) (method path : String) : Selection → Prop
  | notFound (h : ∀ e ∈ r.entries, e.fits (pathParts path) = false) :
      Answers r method path (r.error 0 404 none)
  | badRequest (e : Entry) (h : Decides r (pathParts path) e) (name part message : String)
      (hpart : (Segment.param name, part) ∈ e.segments.zip (pathParts path))
      (hbad : percent part = .error message) :
      Answers r method path (r.error 2 400 none)
  | found (e row : Entry) (params : TreeMap String String) (h : Decides r (pathParts path) e)
      (hbinds : Binds e (pathParts path) params) (hrow : Serves r e.pattern method row) :
      Answers r method path ⟨some row.handler, params, none, none⟩
  | notAllowed (e : Entry) (params : TreeMap String String) (methods : List String)
      (h : Decides r (pathParts path) e) (hbinds : Binds e (pathParts path) params)
      (hrow : ∀ row, ¬Serves r e.pattern method row) (hlists : Lists r e.pattern methods) :
      Answers r method path (r.error 1 405 (some (", ".intercalate methods)))

/-! ## The order of the patterns -/

lemma moreSpecific_self (a : List Segment) : moreSpecific a a = false := by
  induction a with
  | nil => rfl
  | cons s a ih => cases s <;> simpa [moreSpecific] using ih

lemma moreSpecific_trans {a b c : List Segment} (hab : a.length = b.length)
    (hbc : b.length = c.length) (h : moreSpecific a b = true) (h' : moreSpecific b c = true) :
    moreSpecific a c = true := by
  induction a generalizing b c with
  | nil => simp [moreSpecific] at h
  | cons s a ih =>
    obtain ⟨t, b, rfl⟩ := List.exists_cons_of_length_eq_add_one hab.symm
    obtain ⟨u, c, rfl⟩ := List.exists_cons_of_length_eq_add_one hbc.symm
    have hl : a.length = b.length := by simpa using hab
    have hl' : b.length = c.length := by simpa using hbc
    have hrest := ih hl hl'
    -- Only the first place where the three differ in shape decides.
    cases s with
    | literal x =>
      cases u with
      | param z => rfl
      | literal z =>
        cases t with
        | literal y => exact hrest h h'
        | param y => cases h'
    | param x =>
      cases t with
      | literal y => cases h
      | param y =>
        cases u with
        | literal z => cases h'
        | param z => exact hrest h h'

/-- A segment list matches the parts of a path. -/
def FitsAll (a : List Segment) (parts : List String) : Prop :=
  List.Forall₂ (fun s part => s.fits part = true) a parts

lemma fits_iff (e : Entry) (parts : List String) :
    e.fits parts = true ↔ FitsAll e.segments parts := by
  have hzip : ∀ (a : List Segment) (parts : List String), a.length = parts.length →
      (((a.zip parts).all fun s => s.1.fits s.2) = true ↔ FitsAll a parts) := by
    intro a
    induction a with
    | nil =>
      intro parts hl
      obtain rfl := List.length_eq_zero_iff.1 hl.symm
      exact ⟨fun _ => .nil, fun _ => rfl⟩
    | cons s a ih =>
      intro parts hl
      obtain ⟨part, parts, rfl⟩ := List.exists_cons_of_length_eq_add_one hl.symm
      simp only [List.zip_cons_cons, List.all_cons, Bool.and_eq_true,
        ih parts (by simpa using hl), FitsAll, List.forall₂_cons]
  rw [Entry.fits, Bool.and_eq_true, decide_eq_true_eq]
  exact ⟨fun ⟨hl, h⟩ => (hzip _ _ hl).1 h, fun h => ⟨h.length_eq, (hzip _ _ h.length_eq).2 h⟩⟩

/-- Patterns that match one path are alike, or the more specific one prefers. -/
lemma moreSpecific_cases {a b : List Segment} {parts : List String} (ha : FitsAll a parts)
    (hb : FitsAll b parts) :
    (moreSpecific a b = true ∧ Prefers a b) ∨ (moreSpecific b a = true ∧ Prefers b a) ∨
      sameShape a b = true := by
  induction parts generalizing a b with
  | nil =>
    cases ha
    cases hb
    exact .inr (.inr rfl)
  | cons part parts ih =>
    obtain _ | ⟨hs, ha⟩ := ha
    obtain _ | ⟨ht, hb⟩ := hb
    rename_i s a t b
    have hlift : ∀ {a b : List Segment} {s t : Segment}, alike s t = true → Prefers a b →
        Prefers (s :: a) (t :: b) := by
      rintro a b s t hst ⟨i, x, y, hx, hy, hbefore⟩
      refine ⟨i + 1, x, y, by simpa using hx, by simpa using hy, fun j hj => ?_⟩
      cases j with
      | zero => exact ⟨s, t, rfl, rfl, hst⟩
      | succ j => simpa using hbefore j (by omega)
    have hhead : ∀ {a b : List Segment} {x y : String},
        Prefers (.literal x :: a) (.param y :: b) :=
      ⟨0, _, _, rfl, rfl, fun j hj => absurd hj (Nat.not_lt_zero j)⟩
    have hsame : alike s t = true → sameShape a b = true → sameShape (s :: a) (t :: b) = true := by
      intro hst h
      simp only [sameShape, Bool.and_eq_true, decide_eq_true_eq, List.length_cons,
        List.zip_cons_cons, List.all_cons] at h ⊢
      exact ⟨by omega, hst, h.2⟩
    have hmid : alike s t = true → (moreSpecific (s :: a) (t :: b) = moreSpecific a b ∧
        moreSpecific (t :: b) (s :: a) = moreSpecific b a) := by
      cases s <;> cases t <;> simp [alike, moreSpecific]
    have hcase : alike s t = true →
        (moreSpecific (s :: a) (t :: b) = true ∧ Prefers (s :: a) (t :: b)) ∨
        (moreSpecific (t :: b) (s :: a) = true ∧ Prefers (t :: b) (s :: a)) ∨
          sameShape (s :: a) (t :: b) = true := by
      intro hst
      rw [(hmid hst).1, (hmid hst).2]
      rcases ih ha hb with ⟨hm, hp⟩ | ⟨hm, hp⟩ | hm
      · exact .inl ⟨hm, hlift hst hp⟩
      · exact .inr (.inl ⟨hm, hlift (by rwa [alike_comm]) hp⟩)
      · exact .inr (.inr (hsame hst hm))
    cases s with
    | literal x =>
      cases t with
      | literal y =>
        simp only [Segment.fits, decide_eq_true_eq] at hs ht
        exact hcase (by simp [alike, hs, ht])
      | param y => exact .inl ⟨rfl, hhead⟩
    | param x =>
      cases t with
      | literal y => exact .inr (.inl ⟨rfl, hhead⟩)
      | param y => exact hcase rfl

/-- Two patterns do not prefer over each other. -/
lemma Prefers.asymm {a b : List Segment} (h : Prefers a b) : ¬Prefers b a := by
  obtain ⟨i, x, y, hx, hy, hbefore⟩ := h
  rintro ⟨k, z, w, hz, hw, hbefore'⟩
  rcases Nat.lt_trichotomy i k with hik | rfl | hki
  · obtain ⟨s, t, hs, ht, hst⟩ := hbefore' i hik
    rw [hx] at ht
    rw [hy] at hs
    cases hs
    cases ht
    simp [alike] at hst
  · rw [hx] at hw
    cases hw
  · obtain ⟨s, t, hs, ht, hst⟩ := hbefore k hki
    rw [hw] at hs
    rw [hz] at ht
    cases hs
    cases ht
    simp [alike] at hst

section

variable {p : Program} {rows : List Value} {r : Routes} {parts : List String}

/-- The rows that match a path. -/
abbrev matching (r : Routes) (parts : List String) : List Entry :=
  r.entries.filter fun e => e.fits parts

/-- The relation `select` reduces by. -/
abbrev beats (a b : Entry) : Bool := moreSpecific a.segments b.segments

lemma mem_matching {e : Entry} : e ∈ matching r parts ↔ e ∈ r.entries ∧ e.fits parts = true := by
  simp [matching]

lemma strictOn_matching (r : Routes) (parts : List String) :
    Champion.StrictOn beats (matching r parts) := by
  have hlength : ∀ e ∈ matching r parts, e.segments.length = parts.length := fun e he =>
    ((fits_iff e parts).1 (mem_matching.1 he).2).length_eq
  refine ⟨fun e _ => moreSpecific_self e.segments, fun a ha b hb c hc hab hbc => ?_⟩
  exact moreSpecific_trans ((hlength a ha).trans (hlength b hb).symm)
    ((hlength b hb).trans (hlength c hc).symm) hab hbc

/-- Rows that match one path and do not beat each other have one pattern. -/
lemma pattern_eq_of_not_beats (h : Accepted p rows r) {a b : Entry} (ha : a ∈ matching r parts)
    (hb : b ∈ matching r parts) (hab : beats a b = false) (hba : beats b a = false) :
    a.pattern = b.pattern := by
  rw [mem_matching] at ha hb
  rcases moreSpecific_cases ((fits_iff a parts).1 ha.2) ((fits_iff b parts).1 hb.2) with
    ⟨hm, -⟩ | ⟨hm, -⟩ | hs
  · rw [beats, hm] at hab
    cases hab
  · rw [beats, hm] at hba
    cases hba
  · exact h.pattern_eq ha.1 hb.1 hs

/-- The champion among the rows that match is of the pattern that decides. -/
lemma decides_of_champion (h : Accepted p rows r) {e : Entry}
    (hc : Champion.champion beats (matching r parts) = some e) : Decides r parts e := by
  have hu := Champion.champion_spec (strictOn_matching r parts) hc
  obtain ⟨hmem, hfits⟩ := mem_matching.1 hu.mem
  refine ⟨hmem, hfits, fun e' he' hfits' => ?_⟩
  have hnot := hu.best e' (mem_matching.2 ⟨he', hfits'⟩)
  rcases moreSpecific_cases ((fits_iff e parts).1 hfits) ((fits_iff e' parts).1 hfits') with
    ⟨-, hp⟩ | ⟨hm, -⟩ | hs
  · exact .inr hp
  · rw [beats, hm] at hnot
    cases hnot
  · exact .inl (h.pattern_eq hmem he' hs).symm

/-- One pattern decides. -/
lemma Decides.pattern_eq {e e' : Entry} (h : Decides r parts e) (h' : Decides r parts e') :
    e.pattern = e'.pattern := by
  rcases h.prefers e' h'.mem h'.fits with heq | hp
  · exact heq.symm
  · rcases h'.prefers e h.mem h.fits with heq | hp'
    · exact heq
    · exact absurd hp' hp.asymm

end

/-! ## Parameters -/

/-- The parameter names of segments. -/
def paramNames : List Segment → List String
  | [] => []
  | .literal _ :: segments => paramNames segments
  | .param name :: segments => name :: paramNames segments

lemma mem_paramNames {segments : List Segment} {name : String} :
    name ∈ paramNames segments ↔ Segment.param name ∈ segments := by
  induction segments with
  | nil => simp [paramNames]
  | cons s segments ih => cases s <;> simp [paramNames, ih]

/-- The names of a pattern are distinct, and none is one of the names before. -/
lemma paramNames_nodup {p : Program} {parts : List (List Char)} {names : TreeSet String}
    {segments : List Segment} (h : patternParts p parts names = .ok segments) :
    (paramNames segments).Nodup ∧ ∀ name ∈ paramNames segments, name ∉ names := by
  induction parts generalizing names segments with
  | nil =>
    obtain rfl := Except.ok.inj h
    exact ⟨.nil, by simp [paramNames]⟩
  | cons part parts ih =>
    unfold patternParts at h
    split at h
    · dsimp only at h
      obtain ⟨hname, h⟩ := ite_error_eq_ok.1 h
      obtain ⟨-, h⟩ := ite_error_eq_ok.1 h
      obtain ⟨out, hout, h⟩ := bind_eq_ok.1 h
      obtain rfl := Except.ok.inj h
      obtain ⟨hnodup, hfresh⟩ := ih hout
      simp only [TreeSet.mem_insert, Std.compare_eq_iff_eq, not_or] at hfresh
      refine ⟨List.nodup_cons.2 ⟨fun hmem => (hfresh _ hmem).1 rfl, hnodup⟩, fun n hn => ?_⟩
      rcases List.mem_cons.1 hn with rfl | hn
      · simp only [not_or] at hname
        simpa using hname.2.2
      · exact (hfresh n hn).2
    · obtain ⟨segment, hsegment, h⟩ := bind_eq_ok.1 h
      obtain ⟨out, hout, h⟩ := bind_eq_ok.1 h
      obtain rfl := Except.ok.inj h
      unfold literal at hsegment
      obtain ⟨-, hsegment⟩ := ite_error_eq_ok.1 hsegment
      obtain ⟨-, hsegment⟩ := ite_error_eq_ok.1 hsegment
      obtain ⟨-, hsegment⟩ := ite_error_eq_ok.1 hsegment
      obtain rfl := Except.ok.inj hsegment
      obtain ⟨hnodup, hfresh⟩ := ih hout
      exact ⟨hnodup, hfresh⟩

lemma length_patternParts {p : Program} {parts : List (List Char)} {names : TreeSet String}
    {segments : List Segment} (h : patternParts p parts names = .ok segments) :
    segments.length = parts.length := by
  induction parts generalizing names segments with
  | nil =>
    obtain rfl := Except.ok.inj h
    rfl
  | cons part parts ih =>
    unfold patternParts at h
    split at h
    · dsimp only at h
      obtain ⟨-, h⟩ := ite_error_eq_ok.1 h
      obtain ⟨-, h⟩ := ite_error_eq_ok.1 h
      obtain ⟨out, hout, h⟩ := bind_eq_ok.1 h
      obtain rfl := Except.ok.inj h
      simp [ih hout]
    · obtain ⟨segment, -, h⟩ := bind_eq_ok.1 h
      obtain ⟨out, hout, h⟩ := bind_eq_ok.1 h
      obtain rfl := Except.ok.inj h
      simp [ih hout]

lemma Accepted.length_le {p : Program} {rows : List Value} {r : Routes} (h : Accepted p rows r)
    {e : Entry} (he : e ∈ r.entries) : e.segments.length ≤ 64 := by
  obtain ⟨_, hrow⟩ := h.rowOf he
  have hsegments := hrow.segments
  unfold pattern at hsegments
  obtain ⟨-, hsegments⟩ := ite_error_eq_ok.1 hsegments
  obtain ⟨hlimit, hsegments⟩ := ite_error_eq_ok.1 hsegments
  rw [length_patternParts hsegments]
  exact Nat.le_of_not_lt hlimit

lemma Accepted.paramNames_nodup {p : Program} {rows : List Value} {r : Routes}
    (h : Accepted p rows r) {e : Entry} (he : e ∈ r.entries) : (paramNames e.segments).Nodup := by
  obtain ⟨_, hrow⟩ := h.rowOf he
  have hsegments := hrow.segments
  unfold pattern at hsegments
  obtain ⟨-, hsegments⟩ := ite_error_eq_ok.1 hsegments
  obtain ⟨-, hsegments⟩ := ite_error_eq_ok.1 hsegments
  exact (Http.paramNames_nodup hsegments).1

/-- The parameters that are bound, over those there were. -/
lemma bindParams_ok {bound : List (Segment × String)} {params params' : TreeMap String String}
    (hn : (paramNames (bound.map Prod.fst)).Nodup) (h : bindParams bound params = .ok params')
    (name value : String) : params'[name]? = some value ↔
      (∃ part, (Segment.param name, part) ∈ bound ∧ percent part = .ok value) ∨
        (name ∉ paramNames (bound.map Prod.fst) ∧ params[name]? = some value) := by
  induction bound generalizing params with
  | nil =>
    obtain rfl := Except.ok.inj h
    simp [paramNames]
  | cons b bound ih =>
    obtain ⟨s, part⟩ := b
    cases s with
    | literal text =>
      rw [ih hn h]
      simp [paramNames]
    | param own =>
      obtain ⟨decoded, hdecoded, h⟩ := bind_eq_ok.1 h
      obtain ⟨hfresh, hn⟩ := List.nodup_cons.1 hn
      rw [ih hn h, TreeMap.getElem?_insert]
      by_cases hown : own = name
      · subst hown
        have hnone : ∀ other, (Segment.param own, other) ∉ bound := fun other hmem =>
          hfresh (mem_paramNames.2 (List.mem_map.2 ⟨_, hmem, rfl⟩))
        have hpart : ∀ other, (Segment.param own, other) ∈ (Segment.param own, part) :: bound ↔
            other = part := by
          intro other
          simp [hnone other]
        simp only [hpart, hnone, false_and, exists_false, false_or, exists_eq_left, hdecoded,
          Except.ok.injEq, Std.ReflCmp.compare_self, if_true, Option.some.injEq, List.map_cons, paramNames,
          List.mem_cons, true_or, not_true_eq_false, or_false]
        exact ⟨fun h => h.2, fun h => ⟨hfresh, h⟩⟩
      · have hne : ¬compare own name = .eq := by
          rwa [Std.compare_eq_iff_eq]
        simp [paramNames, hne, Ne.symm hown]

/-- The parameters are not bound at a part that does not decode. -/
lemma bindParams_error {bound : List (Segment × String)} {params : TreeMap String String}
    {message : String} (h : bindParams bound params = .error message) :
    ∃ name part, (Segment.param name, part) ∈ bound ∧ percent part = .error message := by
  induction bound generalizing params with
  | nil => cases h
  | cons b bound ih =>
    obtain ⟨s, part⟩ := b
    cases s with
    | literal text =>
      obtain ⟨name, part, hmem, hbad⟩ := ih h
      exact ⟨name, part, List.mem_cons_of_mem _ hmem, hbad⟩
    | param own =>
      unfold bindParams at h
      cases hp : percent part with
      | error e =>
        rw [hp] at h
        obtain rfl := Except.error.inj h
        exact ⟨own, part, by simp, hp⟩
      | ok value =>
        rw [hp] at h
        obtain ⟨name, part, hmem, hbad⟩ := ih h
        exact ⟨name, part, List.mem_cons_of_mem _ hmem, hbad⟩

/-! ## Methods -/

section

variable {p : Program} {rows : List Value} {r : Routes}

/-- The rows of a pattern. -/
abbrev rowsOf (r : Routes) (pattern : String) : List Entry :=
  r.entries.filter fun e => e.pattern = pattern

lemma mem_rowsOf {pattern : String} {e : Entry} :
    e ∈ rowsOf r pattern ↔ e ∈ r.entries ∧ e.pattern = pattern := by
  simp [rowsOf]

/-- The row found for a method of a pattern is the row with that method. -/
lemma findMethod_iff (h : Accepted p rows r) {pattern method : String} {row : Entry} :
    (rowsOf r pattern).find? (fun e => e.method = method) = some row ↔
      row ∈ r.entries ∧ row.pattern = pattern ∧ row.method = method := by
  constructor
  · intro hfind
    have hmem := mem_rowsOf.1 (List.mem_of_find?_eq_some hfind)
    have hmethod := List.find?_some hfind
    exact ⟨hmem.1, hmem.2, by simpa using hmethod⟩
  · rintro ⟨hmem, hpattern, hmethod⟩
    cases hfind : (rowsOf r pattern).find? fun e => e.method = method with
    | none =>
      have hnone := List.find?_eq_none.1 hfind row (mem_rowsOf.2 ⟨hmem, hpattern⟩)
      simp [hmethod] at hnone
    | some other =>
      have hother := mem_rowsOf.1 (List.mem_of_find?_eq_some hfind)
      have hm := List.find?_some hfind
      simp only [decide_eq_true_eq] at hm
      rw [h.method_inj hother.1 hmem (hother.2.trans hpattern.symm) (hm.trans hmethod.symm)]

lemma findMethod_none {pattern method : String} :
    (rowsOf r pattern).find? (fun e => e.method = method) = none ↔
      ∀ row ∈ r.entries, row.pattern = pattern → row.method ≠ method := by
  rw [List.find?_eq_none]
  constructor
  · intro hnone row hmem hpattern
    simpa using hnone row (mem_rowsOf.2 ⟨hmem, hpattern⟩)
  · intro hnone row hmem
    obtain ⟨hmem, hpattern⟩ := mem_rowsOf.1 hmem
    simpa using hnone row hmem hpattern

/-- The row selected is the row that serves. -/
lemma methodRow_iff (h : Accepted p rows r) {pattern method : String} {row : Entry} :
    Routes.methodRow method (rowsOf r pattern) = some row ↔ Serves r pattern method row := by
  unfold Routes.methodRow Serves
  cases hfind : (rowsOf r pattern).find? fun e => e.method = method with
  | some exact =>
    have hexact := (findMethod_iff h).1 hfind
    rw [Option.some_or, Option.some.injEq]
    constructor
    · rintro rfl
      exact ⟨hexact.1, hexact.2.1, .inl hexact.2.2⟩
    · rintro ⟨hmem, hpattern, hmethod | ⟨hhead, -, hnone⟩⟩
      · exact h.method_inj hexact.1 hmem (hexact.2.1.trans hpattern.symm)
          (hexact.2.2.trans hmethod.symm)
      · exact absurd (hexact.2.2.trans hhead) (hnone exact hexact.1 hexact.2.1)
  | none =>
    have hnone := findMethod_none.1 hfind
    rw [Option.none_or]
    by_cases hhead : method = "HEAD"
    · rw [if_pos hhead, findMethod_iff h]
      constructor
      · rintro ⟨hmem, hpattern, hget⟩
        exact ⟨hmem, hpattern, .inr ⟨hhead, hget, hhead ▸ hnone⟩⟩
      · rintro ⟨hmem, hpattern, hmethod | ⟨-, hget, -⟩⟩
        · exact absurd hmethod (hnone row hmem hpattern)
        · exact ⟨hmem, hpattern, hget⟩
    · rw [if_neg hhead]
      constructor
      · intro h
        cases h
      · rintro ⟨hmem, hpattern, hmethod | ⟨hhead', -⟩⟩
        · exact absurd hmethod (hnone row hmem hpattern)
        · exact absurd hhead' hhead

/-- The methods of rows, inserted into a set. -/
lemma mem_methods {m : String} (group : List Entry) (methods : TreeSet String) :
    m ∈ group.foldl (fun s e => s.insert e.method) methods ↔
      (∃ row ∈ group, row.method = m) ∨ m ∈ methods := by
  induction group generalizing methods with
  | nil => simp
  | cons row group ih =>
    rw [List.foldl_cons, ih, TreeSet.mem_insert, Std.compare_eq_iff_eq]
    constructor
    · rintro (⟨row', hmem, hm⟩ | hm | hm)
      · exact .inl ⟨row', by simp [hmem], hm⟩
      · exact .inl ⟨row, by simp, hm⟩
      · exact .inr hm
    · rintro (⟨row', hmem, hm⟩ | hm)
      · rcases List.mem_cons.1 hmem with rfl | hmem
        · exact .inr (.inl hm)
        · exact .inl ⟨row', hmem, hm⟩
      · exact .inr (.inr hm)

/-- The known methods are taken out of a set in their order. -/
lemma takeKnown_spec {known : List String} {methods : TreeSet String} (hn : known.Nodup) :
    (takeKnown known methods).1 = known.filter (fun m => methods.contains m) ∧
      ∀ m, m ∈ (takeKnown known methods).2 ↔ m ∈ methods ∧ m ∉ known := by
  induction known generalizing methods with
  | nil => simp [takeKnown]
  | cons k known ih =>
    obtain ⟨hk, hn⟩ := List.nodup_cons.1 hn
    unfold takeKnown
    by_cases hin : methods.contains k = true
    · obtain ⟨hfirst, hrest⟩ := @ih (methods.erase k) hn
      have hsame : ∀ m ∈ known, (methods.erase k).contains m = methods.contains m := by
        intro m hm
        have hne : ¬compare k m = .eq := by
          rw [Std.compare_eq_iff_eq]
          exact fun he => hk (he ▸ hm)
        rw [TreeSet.contains_erase]
        simp [hne]
      rw [if_pos hin]
      refine ⟨?_, fun m => ?_⟩
      · simp only [hfirst, List.filter_cons, hin, if_true]
        rw [List.filter_congr hsame]
      · simp only [hrest, TreeSet.mem_erase, Std.compare_eq_iff_eq, ne_eq, List.mem_cons, not_or,
          eq_comm (a := k)]
        exact ⟨fun ⟨⟨hne, hm⟩, hnot⟩ => ⟨hm, hne, hnot⟩, fun ⟨hm, hne, hnot⟩ => ⟨⟨hne, hm⟩, hnot⟩⟩
    · obtain ⟨hfirst, hrest⟩ := @ih methods hn
      rw [if_neg hin]
      refine ⟨?_, fun m => ?_⟩
      · rw [hfirst, List.filter_cons, if_neg hin]
      · rw [hrest, List.mem_cons, not_or]
        refine ⟨fun ⟨hm, hnot⟩ => ⟨hm, ?_, hnot⟩, fun ⟨hm, _, hnot⟩ => ⟨hm, hnot⟩⟩
        rintro rfl
        exact hin (TreeSet.contains_iff_mem.2 hm)

/-- The methods listed are those of the pattern, in the order of the answer. -/
lemma allowed_lists (r : Routes) (pattern : String) :
    Lists r pattern (allowed (rowsOf r pattern)) := by
  have hmem := fun m => @mem_methods m (rowsOf r pattern) ∅
  simp only [mem_rowsOf, TreeSet.not_mem_emptyc, or_false, and_assoc] at hmem
  unfold allowed
  generalize (rowsOf r pattern).foldl (fun (s : TreeSet String) e => s.insert e.method) ∅ = own
    at hmem ⊢
  dsimp only
  -- The set that is listed, with `HEAD` for a `GET` row.
  have hall : ∀ m, m ∈ (if own.contains "GET" then own.insert "HEAD" else own) ↔
      (∃ row ∈ r.entries, row.pattern = pattern ∧ row.method = m) ∨
        (m = "HEAD" ∧ ∃ row ∈ r.entries, row.pattern = pattern ∧ row.method = "GET") := by
    intro m
    have hget : own.contains "GET" = true ↔
        ∃ row ∈ r.entries, row.pattern = pattern ∧ row.method = "GET" := by
      rw [TreeSet.contains_iff_mem, hmem]
    by_cases h : own.contains "GET" = true
    · rw [if_pos h, TreeSet.mem_insert, Std.compare_eq_iff_eq, hmem, or_comm, eq_comm]
      simp [hget.1 h]
    · rw [if_neg h, hmem]
      simp [mt hget.2 h]
  generalize (if own.contains "GET" then own.insert "HEAD" else own) = methods at hall
  have hknown : knownMethods.Nodup := by decide
  obtain ⟨hfirst, hrest⟩ := @takeKnown_spec knownMethods methods hknown
  constructor
  · intro m
    rw [List.mem_append, hfirst, List.mem_filter, TreeSet.mem_toList, hrest, ← hall,
      TreeSet.contains_iff_mem]
    by_cases hm : m ∈ knownMethods
    · simp [hm]
    · simp [hm]
  · rw [List.pairwise_append, hfirst]
    refine ⟨?_, ?_, ?_⟩
    · refine List.Pairwise.filter _ ?_
      have hindex : knownMethods.Pairwise fun a b =>
          knownMethods.idxOf a < knownMethods.idxOf b := by decide
      exact hindex.imp fun h => .inl h
    · refine (TreeSet.ordered_toList).imp_of_mem fun {a b} ha hb hlt => .inr ⟨?_, ?_, hlt⟩
      · exact ((hrest a).1 (TreeSet.mem_toList.1 ha)).2
      · exact ((hrest b).1 (TreeSet.mem_toList.1 hb)).2
    · intro a ha b hb
      have ha := (List.mem_filter.1 ha).1
      have hb := ((hrest b).1 (TreeSet.mem_toList.1 hb)).2
      refine .inl ?_
      rw [List.idxOf_eq_length hb]
      exact List.idxOf_lt_length_iff.2 ha

/-- The order of the answer is strict. -/
lemma Before.asymm {a b : String} (h : Before a b) : ¬Before b a := by
  have hlast : ∀ c : String, c ∉ knownMethods → knownMethods.idxOf c = knownMethods.length :=
    fun c hc => List.idxOf_eq_length hc
  rcases h with h | ⟨ha, hb, h⟩
  · rintro (h' | ⟨hb, ha, -⟩)
    · omega
    · rw [hlast a ha, hlast b hb] at h
      omega
  · rintro (h' | ⟨-, -, h'⟩)
    · rw [hlast a ha, hlast b hb] at h'
      omega
    · rw [@Std.OrientedCmp.eq_swap String compare, h] at h'
      cases h'

/-- A pattern has one list of methods. -/
lemma Lists.unique {pattern : String} {ms ms' : List String} (h : Lists r pattern ms)
    (h' : Lists r pattern ms') : ms = ms' := by
  have hnodup : ∀ {ms : List String}, ms.Pairwise Before → ms.Nodup := fun hb =>
    hb.imp fun hab he => hab.asymm (by rw [he] at hab ⊢; exact hab)
  have hperm : ms.Perm ms' := (List.perm_ext_iff_of_nodup (hnodup h.ordered) (hnodup h'.ordered)).2
    fun m => (h.mem m).trans (h'.mem m).symm
  exact hperm.eq_of_pairwise (fun a b _ _ hab hba => absurd hba hab.asymm) h.ordered h'.ordered

end

/-! ## Selection -/

section

variable {p : Program} {rows : List Value} {r : Routes}

/-- Without a row that matches, the champion's place is empty. -/
lemma champion_none {parts : List String} :
    Champion.champion beats (matching r parts) = none ↔
      ∀ e ∈ r.entries, e.fits parts = false := by
  simp [matching, List.filter_eq_nil_iff]

/-- A leading separator gives one empty part. -/
lemma length_split_le (path : String) :
    (split '/' path.toList).length ≤ (pathParts path).length + 1 := by
  unfold pathParts
  rw [List.length_map]
  rcases hpath : path.toList with _ | ⟨c, text⟩
  · exact Nat.le_succ _
  · by_cases hc : c = '/'
    · subst hc
      simp [split]
    · simp [hc]

/-- A path of too many parts matches no row. -/
lemma Accepted.unmatched (h : Accepted p rows r) {path : String}
    (hlong : 65 < (split '/' path.toList).length) {e : Entry} (he : e ∈ r.entries) :
    e.fits (pathParts path) = false := by
  by_contra hfits
  have hlength := ((fits_iff e _).1 (by simpa using hfits)).length_eq
  have hle := h.length_le he
  have hsplit := length_split_le path
  omega

/-- `select` follows the declared precedence. -/
theorem select_answers (h : Accepted p rows r) (method path : String) :
    Answers r method path (r.select method path) := by
  unfold Routes.select
  split
  · rename_i hlong
    exact .notFound fun e he => h.unmatched hlong he
  · dsimp only
    split
    · rename_i hnone
      exact .notFound (champion_none.1 hnone)
    · rename_i e hsome
      have hdecides := decides_of_champion h hsome
      have hlength : e.segments.length = (pathParts path).length :=
        ((fits_iff e _).1 hdecides.fits).length_eq
      have hnames : (paramNames ((e.segments.zip (pathParts path)).map Prod.fst)).Nodup := by
        rw [List.map_fst_zip (Nat.le_of_eq hlength)]
        exact h.paramNames_nodup hdecides.mem
      split
      · rename_i message hbad
        obtain ⟨name, part, hpart, hpercent⟩ := bindParams_error hbad
        exact .badRequest e hdecides name part message hpart hpercent
      · rename_i params hparams
        have hbinds : Binds e (pathParts path) params := by
          intro name value
          rw [bindParams_ok hnames hparams]
          simp
        split
        · rename_i row hrow
          exact .found e row params hdecides hbinds ((methodRow_iff h).1 hrow)
        · rename_i hrow
          refine .notAllowed e params _ hdecides hbinds (fun row hserves => ?_)
            (allowed_lists r e.pattern)
          rw [(methodRow_iff h).2 hserves] at hrow
          cases hrow

/-- The answer does not depend on the order of the entries. -/
theorem select_perm {rows' : List Value} {entries : List Entry} (h : Accepted p rows r)
    (h' : Accepted p rows' ⟨entries, r.hooks⟩) (hp : entries.Perm r.entries)
    (method path : String) :
    (Routes.mk entries r.hooks).select method path = r.select method path := by
  have hgroup : ∀ pattern, Routes.methodRow method (rowsOf ⟨entries, r.hooks⟩ pattern)
      = Routes.methodRow method (rowsOf r pattern) := by
    intro pattern
    refine Option.ext fun row => ?_
    rw [methodRow_iff h', methodRow_iff h]
    unfold Serves
    simp only [hp.mem_iff]
  have hlists : ∀ pattern, allowed (rowsOf ⟨entries, r.hooks⟩ pattern)
      = allowed (rowsOf r pattern) := by
    intro pattern
    have hother := allowed_lists ⟨entries, r.hooks⟩ pattern
    refine Lists.unique (r := r) ⟨fun m => ?_, hother.ordered⟩ (allowed_lists r pattern)
    rw [hother.mem m]
    simp only [hp.mem_iff]
  have hbest : (Champion.champion beats (matching ⟨entries, r.hooks⟩ (pathParts path))).map
        (fun e => (e.pattern, e.segments))
      = (Champion.champion beats (matching r (pathParts path))).map
        fun e => (e.pattern, e.segments) := by
    refine Champion.champion_perm (strictOn_matching _ _) (fun a ha b hb hab hba => ?_)
      (hp.filter _)
    have hpattern := pattern_eq_of_not_beats h' ha hb hab hba
    exact Prod.ext hpattern
      (h'.segments_eq (mem_matching.1 ha).1 (mem_matching.1 hb).1 hpattern)
  unfold Routes.select
  dsimp only
  split
  · rfl
  · -- The champions may be different rows, but of one pattern.
    cases hc : Champion.champion beats (matching r (pathParts path)) with
    | none =>
      rw [hc, Option.map_none, Option.map_eq_none_iff] at hbest
      rw [hbest]
      rfl
    | some e =>
      rw [hc, Option.map_some, Option.map_eq_some_iff] at hbest
      obtain ⟨e', he', heq⟩ := hbest
      obtain ⟨hpattern, hsegments⟩ := Prod.mk.inj heq
      rw [he']
      dsimp only
      rw [hsegments, hpattern]
      cases bindParams (e.segments.zip (pathParts path)) ∅ with
      | error _ => rfl
      | ok params =>
        have hrow := hgroup e.pattern
        have hallow := hlists e.pattern
        unfold rowsOf at hrow hallow
        dsimp only at hrow hallow ⊢
        rw [hrow, hallow]
        cases Routes.methodRow method (r.entries.filter fun e' => e'.pattern = e.pattern) with
        | none => rfl
        | some _ => rfl

end

/-- For an accepted table and every permutation of its rows, every method and every path, `select`
gives one and the same answer, the one of the declared precedence, in which one pattern decides. -/
theorem select_precedence {p : Program} {rows rows' : List Value} {r : Routes}
    (h : decode p (.vector rows) = .ok r) (hp : rows.Perm rows') :
    ∃ r', decode p (.vector rows') = .ok r' ∧ ∀ method path,
      r'.select method path = r.select method path ∧
        Answers r method path (r.select method path) ∧
          ∀ e e', Decides r (pathParts path) e → Decides r (pathParts path) e' →
            e.pattern = e'.pattern := by
  have haccepted := decode_iff.1 h
  obtain ⟨entries, hperm, haccepted'⟩ := haccepted.perm hp
  refine ⟨⟨entries, r.hooks⟩, decode_iff.2 haccepted', fun method path => ?_⟩
  exact ⟨select_perm haccepted haccepted' hperm method path, select_answers haccepted method path,
    fun _ _ hd hd' => hd.pattern_eq hd'⟩

/-- A program with the functions `handler` and `other`. -/
def sampleProgram : Program where
  identifier s := !s.isEmpty && s.toList.all Char.isAlpha
  httpFunction s := .ok (if s = "handler" ∨ s = "other" then some 1 else none)

/-- The row of three strings. -/
def sampleRow (method path handler : String) : Value :=
  .tuple [.string method, .string path, .string handler]

/-- A literal first against a literal last. -/
def sampleRows : List Value :=
  [sampleRow "GET" "/a/\x7bx\x7d" "handler", sampleRow "GET" "/\x7by\x7d/b" "other"]

/-- The entries of the sample rows. -/
def sampleRoutes : Routes where
  entries :=
    [⟨"GET", "/a/\x7bx\x7d", "handler", [.literal "a", .param "x"]⟩,
      ⟨"GET", "/\x7by\x7d/b", "other", [.param "y", .literal "b"]⟩]
  hooks := [none, none, none]

theorem select_precedence_reversed :
    ∃ r', decode sampleProgram (.vector sampleRows.reverse) = .ok r' ∧ ∀ method path,
      r'.select method path = sampleRoutes.select method path ∧
        Answers sampleRoutes method path (sampleRoutes.select method path) ∧
          ∀ e e', Decides sampleRoutes (pathParts path) e →
            Decides sampleRoutes (pathParts path) e' → e.pattern = e'.pattern :=
  @select_precedence sampleProgram sampleRows _ _ (by rfl) (List.reverse_perm sampleRows).symm

end Http

end Rnx
